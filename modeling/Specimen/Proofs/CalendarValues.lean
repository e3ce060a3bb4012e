/-
The values of the calendar kinds.  Each kind lays its values out on whole
numbers in their order and without gaps, reads the texts that spell them and
reads back what it writes.  So the values that are drawn keep to the bounds of
the facets whenever one value does, and with bounds on both sides they are drawn
from all that do.
-/
import Specimen.Proofs.LayoutRange
import Specimen.Value.Temporal

namespace Specimen

open Number (InRange)
open Decimal (isNumeral isNumeral_iff value zeroPadded padded Literal)

namespace Calendar

/-- The dates that stand for the values of a kind; parts that the kind leaves
out are those of the first of January 2000. -/
def IsValue : Kind → Date → Prop
  | .date, d => d.Valid
  | .gYearMonth, d => InRange (d.year * 12) ∧ InRange (d.year * 12 + d.month) ∧
      1 ≤ d.month ∧ d.month ≤ 12 ∧ d.day = 1
  | .gYear, d => InRange d.year ∧ d.month = 1 ∧ d.day = 1
  | .gMonthDay, d => d.Valid ∧ d.year = 2000
  | .gDay, d => d.Valid ∧ d.year = 2000 ∧ d.month = 1
  | .gMonth, d => d.Valid ∧ d.year = 2000 ∧ d.day = 1
  | _, _ => False

/-- The number that a kind lays a value out on. -/
def point : Kind → Date → Int
  | .date, d => d.dayNumber
  | .gYearMonth, d => d.year * 12 + d.month - 1
  | .gYear, d => d.year
  | .gMonthDay, d => d.ordinal
  | .gDay, d => d.day
  | .gMonth, d => d.month
  | _, _ => 0

/-- The text spells the value in the form of the kind. -/
inductive ValueText : Kind → List Char → Date → Prop where
  | date {s : List Char} {d : Date} (hdate : DateText s d) : ValueText .date s d
  | yearMonth {y m : List Char} {year : Int} {month : Nat}
    (hyear : YearText y year) (hmonth : TwoDigits m month) :
    ValueText .gYearMonth (y ++ '-' :: m) ⟨year, month, 1⟩
  | year {y : List Char} {year : Int} (hyear : YearText y year) :
    ValueText .gYear y ⟨year, 1, 1⟩
  | monthDay {m d : List Char} {month day : Nat} (hmonth : TwoDigits m month)
    (hday : TwoDigits d day) :
    ValueText .gMonthDay ('-' :: '-' :: (m ++ '-' :: d)) ⟨2000, month, day⟩
  | day {d : List Char} {day : Nat} (hday : TwoDigits d day) :
    ValueText .gDay ('-' :: '-' :: '-' :: d) ⟨2000, 1, day⟩
  | month {m : List Char} {month : Nat} (hmonth : TwoDigits m month) :
    ValueText .gMonth ('-' :: '-' :: m) ⟨2000, month, 1⟩

/-- The text names a value of the kind, perhaps with blanks around it. -/
def Names (kind : Kind) (text : String) (v : Date) : Prop :=
  IsValue kind v ∧ Value.Around (ValueText kind · v) text

variable {kind : Kind} {s : List Char} {v w : Date}

/-- A text that spells a value is made of digits and signs. -/
theorem ValueText.madeOf (hs : ValueText kind s v) :
    Text.MadeOf ['+', '-'] s := by
  have hhyphen : '-' ∈ ['+', '-'] := by simp
  cases hs with
  | date hdate => exact hdate.madeOf
  | yearMonth hyear hmonth =>
      exact hyear.literal.madeOf.append (hmonth.madeOf.cons hhyphen)
  | year hyear => exact hyear.literal.madeOf
  | monthDay hmonth hday =>
      have hfields := hmonth.madeOf.append (hday.madeOf.cons hhyphen)
      exact (hfields.cons hhyphen).cons hhyphen
  | day hday => exact ((hday.madeOf.cons hhyphen).cons hhyphen).cons hhyphen
  | month hmonth => exact (hmonth.madeOf.cons hhyphen).cons hhyphen

theorem ValueText.bare (hs : ValueText kind s v) : Value.Bare s where
  solid := hs.madeOf.solid rfl
  letter := hs.madeOf.not_mem (by decide) rfl
  offset := Value.beforeOffset?_of_not_mem (hs.madeOf.not_mem (by decide) rfl)

end Calendar

namespace Value.Layout

open Calendar

/-- The layout presents the values of a kind in their order by the numbers of
the set. -/
structure Presents (layout : Layout) (kind : Kind)
    (domain : Set Int) : Prop where
  covers : layout.Covers domain
  strictMonoOn : StrictMonoOn (point kind) {v | IsValue kind v}
  image_point : point kind '' {v | IsValue kind v} = domain
  read_spelled : ∀ s v, ValueText kind s v → IsValue kind v →
    layout.read s = some (point kind v)
  read_written : ∀ v, IsValue kind v →
    ∃ s, layout.write (point kind v) = some s ∧
      layout.read s = some (point kind v)

theorem presents_date : Presents date .date
    (Set.Icc (Date.daysBefore Calendar.firstYear + 1)
      (Date.daysBefore (Calendar.lastYear + 1))) where
  covers := covers_Icc (by decide) (by decide)
  strictMonoOn _ hv _ hw hlt := Date.Valid.dayNumber_lt hv hw hlt
  image_point := by
    ext n
    constructor
    · rintro ⟨v, hv, rfl⟩
      exact ⟨Date.Valid.daysBefore_lt hv, Date.Valid.dayNumber_le hv⟩
    · rintro ⟨hfirst, hlast⟩
      exact Date.exists_dayNumber hfirst hlast
  read_spelled s v hs hv := by
    cases hs with
    | date hdate =>
        exact congrArg (Option.map Date.dayNumber) (hdate.readDate hv)
  read_written v hv :=
    ⟨v.write, congrArg (Option.map Date.write) (Date.Valid.ofDayNumber? hv),
      congrArg (Option.map Date.dayNumber) ((dateText_write hv).readDate hv)⟩

theorem read_yearMonth {y m : List Char} {v : Date} (hyear : Literal y v.year)
    (hmonth : TwoDigits m v.month) (hv : IsValue .gYearMonth v) :
    yearMonth.read (y ++ '-' :: m) = some (point .gYearMonth v) := by
  obtain ⟨hleast, hgreatest, hfirst, hlast, -⟩ := hv
  have hhyphen : '-' ∉ m := fun h =>
    absurd ((isNumeral_iff.mp hmonth.numeral).2 _ h) (by decide)
  have hrange : InRange v.year := by
    unfold InRange Number.least Number.greatest at *
    omega
  simp only [yearMonth, Text.cutLast_append hhyphen, hyear.readInt? hrange,
    hmonth.readInt?, Option.bind_eq_bind, Option.bind_some]
  rw [if_pos (by omega)]
  rfl

theorem presents_yearMonth : Presents yearMonth .gYearMonth
    (Set.Icc (-768614336404564650 * 12) (Number.greatest - 1)) where
  covers := covers_Icc (by decide) (by decide)
  strictMonoOn v hv w hw hlt := by
    obtain ⟨-, -, hfirst, hlast, hday⟩ := hv
    obtain ⟨-, -, hfirst', hlast', hday'⟩ := hw
    have hlt := Date.lt_iff.mp hlt
    simp only [point]
    omega
  image_point := by
    ext n
    unfold Number.greatest
    constructor
    · rintro ⟨v, ⟨hleast, hgreatest, hfirst, hlast, -⟩, rfl⟩
      unfold InRange Number.least Number.greatest at *
      simp only [point, Set.mem_Icc]
      omega
    · rintro ⟨hleast, hgreatest⟩
      obtain ⟨month, hmonth⟩ : ∃ month : Nat, (month : Int) = n % 12 + 1 :=
        ⟨_, Int.toNat_of_nonneg (by omega)⟩
      have hfirst : InRange (n / 12 * 12) := by
        unfold InRange Number.least Number.greatest
        omega
      have hlast : InRange (n / 12 * 12 + month) := by
        unfold InRange Number.least Number.greatest
        omega
      have htwelve : 1 ≤ month ∧ month ≤ 12 := by omega
      refine ⟨⟨n / 12, month, 1⟩,
        ⟨hfirst, hlast, htwelve.1, htwelve.2, rfl⟩, ?_⟩
      simp only [point]
      omega
  read_spelled s v hs hv := by
    cases hs with
    | yearMonth hyear hmonth => exact read_yearMonth hyear.literal hmonth hv
  read_written v hv := by
    obtain ⟨-, -, hfirst, hlast, -⟩ := id hv
    have hyear : point .gYearMonth v / 12 = v.year := by
      simp only [point]
      omega
    have hmonth : point .gYearMonth v % 12 + 1 = v.month := by
      simp only [point]
      omega
    refine ⟨padded 4 v.year ++ '-' :: padded 2 v.month, ?_,
      read_yearMonth (Decimal.literal_padded 4 v.year)
        (twoDigits_padded (by omega)) hv⟩
    simp only [yearMonth, hyear, hmonth]

theorem presents_year : Presents year .gYear
    (Set.Icc Number.least Number.greatest) where
  covers := covers_Icc (by decide) (by decide)
  strictMonoOn v hv w hw hlt := by
    obtain ⟨-, hmonth, hday⟩ := hv
    obtain ⟨-, hmonth', hday'⟩ := hw
    have hlt := Date.lt_iff.mp hlt
    simp only [point]
    omega
  image_point := by
    ext n
    constructor
    · rintro ⟨v, hv, rfl⟩
      exact hv.1
    · intro hn
      exact ⟨⟨n, 1, 1⟩, ⟨hn, rfl, rfl⟩, rfl⟩
  read_spelled s v hs hv := by
    cases hs with
    | year hyear => exact hyear.literal.readInt? hv.1
  read_written v hv :=
    ⟨_, rfl, (Decimal.literal_padded 4 v.year).readInt? hv.1⟩

theorem read_monthDay {m d : List Char} {v : Date}
    (hmonth : TwoDigits m v.month)
    (hday : TwoDigits d v.day) (hv : IsValue .gMonthDay v) :
    monthDay.read ('-' :: '-' :: (m ++ '-' :: d)) =
      some (point .gMonthDay v) := by
  have hyear : DateYear (Decimal.ofInt placingYear) v.year := by
    rw [hv.2]
    exact dateYear_writeYear 2000
  have hdate := (DateText.fields hyear hmonth hday).readDate hv.1
  have hafter (s : List Char) : Text.after "--" ('-' :: '-' :: s) = some s :=
    rfl
  simp only [monthDay, hafter, Option.bind_eq_bind, Option.bind_some, hdate]
  rfl

theorem presents_monthDay : Presents monthDay .gMonthDay (Set.Icc 1 366) where
  covers := covers_Icc (by decide) (by decide)
  strictMonoOn v hv w hw hlt := by
    have hordinal := hv.1.ordinal_lt hw.1 (hv.2.trans hw.2.symm) hlt
    simp only [point]
    omega
  image_point := by
    ext n
    constructor
    · rintro ⟨v, hv, rfl⟩
      have hordinal := hv.1.ordinal_mem
      have hlength : yearLength v.year = 366 := by rw [hv.2]; rfl
      simp only [point, Set.mem_Icc]
      omega
    · rintro ⟨hfirst, hlast⟩
      have hlength : yearLength 2000 = 366 := rfl
      obtain ⟨v, hvalid, hyear, hordinal⟩ := @Date.exists_ordinal 2000 n.toNat
        (by decide) (by decide) (by omega) (by omega)
      refine ⟨v, ⟨hvalid, hyear⟩, ?_⟩
      simp only [point]
      omega
  read_spelled s v hs hv := by
    cases hs with
    | monthDay hmonth hday => exact read_monthDay hmonth hday hv
  read_written v hv := by
    have hdate := hv.1.ofOrdinal?
    have hday := hv.1.day_le
    have hmonth := hv.1.2.2.2.1
    rw [hv.2] at hdate
    refine ⟨'-' :: '-' ::
      (zeroPadded 2 v.month ++ '-' :: zeroPadded 2 v.day), ?_,
      read_monthDay (twoDigits_zeroPadded (by omega))
        (twoDigits_zeroPadded (by omega)) hv⟩
    have hplace : (point .gMonthDay v).toNat = v.ordinal := rfl
    have hpos : ¬ point .gMonthDay v < 0 :=
      Int.not_lt.mpr (Int.natCast_nonneg _)
    simp only [monthDay, placingYear, if_neg hpos, hplace, hdate]
    rfl

/-- A day of January 2000 is there for each day that a month can have. -/
theorem january_valid_iff {day : Nat} :
    (Date.mk 2000 1 day).Valid ↔ 1 ≤ day ∧ day ≤ 31 := by
  simp [Date.Valid, Calendar.firstYear, Calendar.lastYear, monthLengths]

theorem presents_day : Presents day .gDay (Set.Icc 1 31) where
  covers := covers_Icc (by decide) (by decide)
  strictMonoOn v hv w hw hlt := by
    obtain ⟨-, hyear, hmonth⟩ := hv
    obtain ⟨-, hyear', hmonth'⟩ := hw
    have hlt := Date.lt_iff.mp hlt
    simp only [point]
    omega
  image_point := by
    ext n
    constructor
    · rintro ⟨⟨year, month, day⟩, ⟨hvalid, rfl, rfl⟩, rfl⟩
      have hday := january_valid_iff.mp hvalid
      simp only [point, Set.mem_Icc]
      omega
    · rintro ⟨hfirst, hlast⟩
      refine ⟨⟨2000, 1, n.toNat⟩,
        ⟨january_valid_iff.mpr (by omega), rfl, rfl⟩, ?_⟩
      simp only [point]
      omega
  read_spelled s v hs hv := by
    cases hs with
    | day hday => exact hday.readInt?
  read_written v hv :=
    ⟨_, rfl, (twoDigits_padded (by have hday := hv.1.day_le; omega)).readInt?⟩

/-- Every month of the year 2000 has a first day. -/
theorem first_valid_iff {month : Nat} :
    (Date.mk 2000 month 1).Valid ↔ 1 ≤ month ∧ month ≤ 12 := by
  constructor
  · rintro ⟨-, -, hfirst, hlast, -⟩
    exact ⟨hfirst, hlast⟩
  · rintro ⟨hfirst, hlast⟩
    have hlength : ∀ i < 12, 1 ≤ (monthLengths 2000).getD i 0 := by decide
    have hcovered : Calendar.firstYear ≤ 2000 ∧ 2000 ≤ Calendar.lastYear := by
      decide
    exact ⟨hcovered.1, hcovered.2, hfirst, hlast, Nat.le_refl 1,
      hlength (month - 1) (by omega)⟩

theorem presents_month : Presents month .gMonth (Set.Icc 1 12) where
  covers := covers_Icc (by decide) (by decide)
  strictMonoOn v hv w hw hlt := by
    obtain ⟨-, hyear, hday⟩ := hv
    obtain ⟨-, hyear', hday'⟩ := hw
    have hlt := Date.lt_iff.mp hlt
    simp only [point]
    omega
  image_point := by
    ext n
    constructor
    · rintro ⟨v, hv, rfl⟩
      obtain ⟨-, -, hfirst, hlast, -⟩ := hv.1
      simp only [point, Set.mem_Icc]
      omega
    · rintro ⟨hfirst, hlast⟩
      refine ⟨⟨2000, n.toNat, 1⟩,
        ⟨first_valid_iff.mpr (by omega), rfl, rfl⟩, ?_⟩
      simp only [point]
      omega
  read_spelled s v hs hv := by
    cases hs with
    | month hmonth => exact hmonth.readInt?
  read_written v hv :=
    ⟨_, rfl, (twoDigits_padded
      (by have hmonth := hv.1.2.2.2.1; omega)).readInt?⟩

section Drawn

variable {layout : Layout} {kind : Kind} {domain : Set Int} {facets : Facets}
  {v : Date}

/-- The text names a value that is laid out on the number. -/
def NamesPoint (kind : Kind) (text : String) (n : Int) : Prop :=
  ∃ v, Names kind text v ∧ point kind v = n

theorem Presents.finds (hlayout : layout.Presents kind domain) :
    layout.Finds (NamesPoint kind) := by
  rintro text _ ⟨v, hv, rfl⟩
  exact hlayout.read_spelled _ v (hv.2.withoutZone fun _ hs => hs.bare) hv.1

theorem Presents.mem_of_namesPoint (hlayout : layout.Presents kind domain)
    {text : String} {n : Int} (hn : NamesPoint kind text n) :
    n ∈ domain := by
  obtain ⟨v, hv, rfl⟩ := hn
  rw [← hlayout.image_point]
  exact Set.mem_image_of_mem _ hv.1

/-- Between bounds that name values the ends of the range are in range. -/
theorem Presents.inRange_range (hlayout : layout.Presents kind domain)
    (hbounds : ∀ side, ∀ limit ∈ facets.limit? side,
      ∃ v, Names kind limit.value v) :
    InRange (layout.range facets).1 ∧ InRange (layout.range facets).2 := by
  refine range_ends (ends_facetBounds fun side limit hlimit bound hbound => ?_)
    (hlayout.covers.inRange _ hlayout.covers.first_mem)
    (hlayout.covers.inRange _ hlayout.covers.last_mem)
  obtain ⟨v, hv⟩ := hbounds side limit hlimit
  have hpoint : NamesPoint kind limit.value (point kind v) := ⟨v, hv, rfl⟩
  exact bound?_inRange (hlayout.finds _ _ hpoint)
    (hlayout.covers.inRange _ (hlayout.mem_of_namesPoint hpoint)) hbound

/-- Values keep to the bounds exactly if the numbers do that they are laid out
on. -/
theorem Presents.within_point_iff (hlayout : layout.Presents kind domain)
    (hv : IsValue kind v) :
    facets.Within (NamesPoint kind) (point kind v) ↔
      facets.Within (Names kind) v :=
  Facets.within_iff_of_strictMonoOn hlayout.strictMonoOn (fun _ _ hx => hx.1) hv

/-- A number that keeps to the bounds is that of a value that does. -/
theorem Presents.exists_within (hlayout : layout.Presents kind domain)
    {n : Int} (hn : n ∈ domain)
    (hwithin : facets.Within (NamesPoint kind) n) :
    ∃ v, IsValue kind v ∧ point kind v = n ∧ facets.Within (Names kind) v := by
  rw [← hlayout.image_point] at hn
  obtain ⟨v, hv, rfl⟩ := hn
  exact ⟨v, hv, rfl, (hlayout.within_point_iff hv).mp hwithin⟩

/-- Where a value lies on the number that the stream gives, it is what is drawn.
-/
theorem Presents.draw_eq (hlayout : layout.Presents kind domain)
    (hv : IsValue kind v) {s : Stream}
    (hpoint : point kind v = (Draw.integer (layout.range facets).1
      (layout.range facets).2 s).1) :
    ∃ text, (layout.draw facets s).1 = some text ∧
      layout.read text.toList = some (point kind v) := by
  obtain ⟨written, hwrite, hread⟩ := hlayout.read_written v hv
  refine ⟨String.ofList written, ?_, by rwa [String.toList_ofList]⟩
  rw [hpoint] at hwrite
  exact congrArg (Option.map String.ofList) hwrite

theorem Presents.inRange_ends (hlayout : layout.Presents kind domain)
    (hle : (layout.range facets).1 ≤ (layout.range facets).2)
    (hrange : ∀ n ∈ Set.Icc (layout.range facets).1 (layout.range facets).2,
      n ∈ domain ∧ facets.Within (NamesPoint kind) n) :
    InRange (layout.range facets).1 ∧ InRange (layout.range facets).2 :=
  ⟨hlayout.covers.inRange _ (hrange _ ⟨Int.le_refl _, hle⟩).1,
    hlayout.covers.inRange _ (hrange _ ⟨hle, Int.le_refl _⟩).1⟩

/-- Where the range holds no numbers but those of the layout that keep to the
bounds, every stream draws a value that does. -/
theorem Presents.exists_drawn (hlayout : layout.Presents kind domain)
    (hle : (layout.range facets).1 ≤ (layout.range facets).2)
    (hrange : ∀ n ∈ Set.Icc (layout.range facets).1 (layout.range facets).2,
      n ∈ domain ∧ facets.Within (NamesPoint kind) n) (s : Stream) :
    ∃ text v, (layout.draw facets s).1 = some text ∧
      layout.read text.toList = some (point kind v) ∧
      point kind v = (Draw.integer (layout.range facets).1
        (layout.range facets).2 s).1 ∧
      IsValue kind v ∧ facets.Within (Names kind) v := by
  obtain ⟨hfrom, hupTo⟩ := hlayout.inRange_ends hle hrange
  obtain ⟨hn, hkeeps⟩ := hrange _ (Draw.integer_mem hle hfrom hupTo s)
  obtain ⟨v, hv, hpoint, hwithin⟩ := hlayout.exists_within hn hkeeps
  obtain ⟨text, hdraw, hread⟩ := hlayout.draw_eq hv hpoint
  exact ⟨text, v, hdraw, hread, hpoint, hv, hwithin⟩

/-- The numbers of a layout that keep to the bounds are those of the values that
do. -/
theorem Presents.image_within (hlayout : layout.Presents kind domain) :
    {n | n ∈ domain ∧ facets.Within (NamesPoint kind) n} =
      point kind '' {v | IsValue kind v ∧ facets.Within (Names kind) v} := by
  ext n
  constructor
  · rintro ⟨hn, hkeeps⟩
    obtain ⟨v, hv, hpoint, hwithin⟩ := hlayout.exists_within hn hkeeps
    exact ⟨v, ⟨hv, hwithin⟩, hpoint⟩
  · rintro ⟨v, ⟨hv, hwithin⟩, rfl⟩
    exact ⟨hlayout.image_point ▸ Set.mem_image_of_mem _ hv,
      (hlayout.within_point_iff hv).mpr hwithin⟩

/-- What is drawn is read back as a number of the range, and every number of the
range is that of something drawn. -/
theorem Presents.drawn_eq_Icc (hlayout : layout.Presents kind domain)
    (hle : (layout.range facets).1 ≤ (layout.range facets).2)
    (hrange : ∀ n ∈ Set.Icc (layout.range facets).1 (layout.range facets).2,
      n ∈ domain ∧ facets.Within (NamesPoint kind) n) :
    {n | ∃ s text, (layout.draw facets s).1 = some text ∧
        layout.read text.toList = some n} =
      Set.Icc (layout.range facets).1 (layout.range facets).2 := by
  obtain ⟨hfrom, hupTo⟩ := hlayout.inRange_ends hle hrange
  ext n
  constructor
  · rintro ⟨s, text, hdraw, hread⟩
    obtain ⟨text', v, hdraw', hread', hpoint, -⟩ :=
      hlayout.exists_drawn hle hrange s
    obtain rfl : text = text' := Option.some.inj (hdraw.symm.trans hdraw')
    obtain rfl : point kind v = n := Option.some.inj (hread'.symm.trans hread)
    exact hpoint ▸ Draw.integer_mem hle hfrom hupTo s
  · rintro ⟨hlow, hhigh⟩
    obtain ⟨s, hs⟩ := Draw.exists_integer hfrom hupTo hlow hhigh
    obtain ⟨text, v, hdraw, hread, hpoint, -⟩ :=
      hlayout.exists_drawn hle hrange s
    exact ⟨s, text, hdraw, by rw [hread, hpoint, hs]⟩

/-- Every kind that has values is presented by its layout. -/
theorem exists_presents (hv : IsValue kind v) :
    ∃ layout domain, ofKind? kind = some layout ∧
      layout.Presents kind domain := by
  cases kind with
  | date => exact ⟨_, _, rfl, presents_date⟩
  | gYearMonth => exact ⟨_, _, rfl, presents_yearMonth⟩
  | gYear => exact ⟨_, _, rfl, presents_year⟩
  | gMonthDay => exact ⟨_, _, rfl, presents_monthDay⟩
  | gDay => exact ⟨_, _, rfl, presents_day⟩
  | gMonth => exact ⟨_, _, rfl, presents_month⟩
  | _ => exact hv.elim

/-- If a value of a calendar kind keeps to the bounds of the facets, a text is
always drawn.  It is read back as such a value, and as the number that the
stream gives between the ends of the range.  With bounds on both sides the range
is that of the values that keep to them, and each of these is drawn from some
stream. -/
theorem calendar_draws (hone : facets.OneBoundEach)
    (hsome : ∃ v, IsValue kind v ∧ facets.Within (Names kind) v) :
    ∃ layout, ofKind? kind = some layout ∧
      (∀ s, ∃ text v, (layout.draw facets s).1 = some text ∧
        layout.read text.toList = some (point kind v) ∧
        point kind v = (Draw.integer (layout.range facets).1
          (layout.range facets).2 s).1 ∧
        IsValue kind v ∧ facets.Within (Names kind) v) ∧
      ((∀ side, (facets.limit? side).isSome) →
        Set.Icc (layout.range facets).1 (layout.range facets).2 =
            point kind '' {v | IsValue kind v ∧ facets.Within (Names kind) v} ∧
          {n | ∃ s text, (layout.draw facets s).1 = some text ∧
              layout.read text.toList = some n} =
            point kind '' {v | IsValue kind v ∧
              facets.Within (Names kind) v}) := by
  obtain ⟨w, hw, hwithin⟩ := hsome
  obtain ⟨layout, domain, hkind, hlayout⟩ := exists_presents hw
  obtain ⟨hle, hrange, hboth⟩ := range_within hlayout.covers hlayout.finds
    (fun _ _ => hlayout.mem_of_namesPoint) hone
    (hlayout.image_point ▸ Set.mem_image_of_mem _ hw)
    ((hlayout.within_point_iff hw).mpr hwithin)
  refine ⟨layout, hkind, hlayout.exists_drawn hle hrange, fun hlimits => ?_⟩
  have hvalues : Set.Icc (layout.range facets).1 (layout.range facets).2 =
      point kind '' {v | IsValue kind v ∧ facets.Within (Names kind) v} := by
    rw [← hlayout.image_within]
    refine Set.Subset.antisymm hrange fun n hn => ?_
    rw [hboth hlimits]
    exact hn.2
  exact ⟨hvalues, (hlayout.drawn_eq_Icc hle hrange).trans hvalues⟩

end Drawn

namespace CalendarWitness

/-- The last two days of February 2020, by the days around them. -/
def leapDay : Facets where
  minExclusive := some "2020-02-27"
  maxExclusive := some " 2020-03-01"

/-- A date that is written, perhaps with blanks around it, names itself. -/
theorem names_date {text : String} {v : Date} {front back : List Char}
    (hv : v.Valid) (htext : text.toList = front ++ v.write ++ back)
    (hfront : Text.Blank front) (hback : Text.Blank back) :
    Names .date text v :=
  ⟨hv, front, v.write, back, htext, hfront, hback, .date (dateText_write hv)⟩

/-- The 29th of February lies between the bounds. -/
theorem leapDay_within : leapDay.Within (Names .date) ⟨2020, 2, 29⟩ where
  minInclusive := nofun
  minExclusive := by
    rintro text ⟨⟩
    exact ⟨⟨2020, 2, 27⟩,
      names_date (by decide) rfl Text.blank_nil Text.blank_nil, by decide⟩
  maxInclusive := nofun
  maxExclusive := by
    rintro text ⟨⟩
    exact ⟨⟨2020, 3, 1⟩,
      names_date (by decide) rfl Text.blank_space Text.blank_nil, by decide⟩

/-- Between the 27th of February and the first of March 2020 just the two days
between them are drawn. -/
theorem leapDay_drawn :
    leapDay.OneBoundEach ∧
      (∃ v, IsValue .date v ∧ leapDay.Within (Names .date) v) ∧
      (∀ side, (leapDay.limit? side).isSome) ∧
      ∃ layout, ofKind? .date = some layout ∧
        (∀ s, ∃ text v, (layout.draw leapDay s).1 = some text ∧
          layout.read text.toList = some (point .date v) ∧ IsValue .date v ∧
          leapDay.Within (Names .date) v) ∧
        {n | ∃ s text, (layout.draw leapDay s).1 = some text ∧
            layout.read text.toList = some n} =
          point .date '' {v | IsValue .date v ∧
            leapDay.Within (Names .date) v} := by
  have hone : leapDay.OneBoundEach := ⟨.inl rfl, .inl rfl⟩
  have hsome : ∃ v, IsValue .date v ∧ leapDay.Within (Names .date) v :=
    ⟨⟨2020, 2, 29⟩, show Date.Valid _ by decide, leapDay_within⟩
  have hlimits : ∀ side, (leapDay.limit? side).isSome := by
    rintro (_ | _) <;> rfl
  obtain ⟨layout, hlayout, hdrawn, hboth⟩ := calendar_draws hone hsome
  refine ⟨hone, hsome, hlimits, layout, hlayout, fun s => ?_, (hboth hlimits).2⟩
  obtain ⟨text, v, hdraw, hread, -, hv⟩ := hdrawn s
  exact ⟨text, v, hdraw, hread, hv⟩

end CalendarWitness

end Value.Layout

end Specimen
