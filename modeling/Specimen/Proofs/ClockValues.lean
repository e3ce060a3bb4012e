/-
Times of day and instants.  A text tells whole seconds and perhaps a fraction of
one; the layouts of both kinds read the seconds and cut the fraction off.  What
is drawn keeps to the bounds exactly where cutting does no harm: a value must
not be let in below an inclusive bound, and the bounds must still leave some
second.
-/
import Mathlib.Data.Rat.Floor
import Specimen.Proofs.LayoutRange

namespace Specimen

open Number (InRange)
open Scaled (Side)
open Decimal (isNumeral isNumeral_iff value)

namespace Calendar

/-- Behind the seconds there is nothing, or a point and decimals. -/
inductive FractionText : List Char → ℚ → Prop where
  | nothing : FractionText [] 0
  | decimals {s : List Char} (hnumeral : isNumeral s) :
    FractionText ('.' :: s) (value s / 10 ^ s.length)

/-- The text of a time of day or an instant without fraction, and the number of
seconds that the kind lays it out on. -/
inductive SecondText : Kind → List Char → Int → Prop where
  | time {c : List Char} {n : Nat} (hclock : ClockText c n) :
    SecondText .time c n
  | dateTime {d c : List Char} {date : Date} {n : Nat} (hdate : DateText d date)
    (hvalid : date.Valid) (hclock : ClockText c n) :
    SecondText .dateTime (d ++ 'T' :: c)
      ((date.dayNumber - epochDay) * daySeconds + n)

/-- The text of a time of day or an instant, and the exact number of seconds. -/
inductive Tells (kind : Kind) : List Char → ℚ → Prop where
  | fields {s f : List Char} {n : Int} {x : ℚ} (hsecond : SecondText kind s n)
    (hfraction : FractionText f x) : Tells kind (s ++ f) (n + x)

/-- The number is that of a time of day or an instant. -/
def IsSecond (kind : Kind) (n : Int) : Prop :=
  ∃ s, SecondText kind s n

/-- The text names the exact number of seconds, perhaps with blanks around it.
-/
def NamesInstant (kind : Kind) (text : String) (x : ℚ) : Prop :=
  Value.Around (Tells kind · x) text

/-- The text names the whole number of seconds, perhaps and a fraction. -/
def NamesSecond (kind : Kind) (text : String) (n : Int) : Prop :=
  ∃ x, NamesInstant kind text x ∧ ⌊x⌋ = n

variable {kind : Kind} {s f : List Char} {n : Int} {x y : ℚ}

theorem FractionText.mem_Ico (hf : FractionText f x) :
    x ∈ Set.Ico (0 : ℚ) 1 := by
  cases hf with
  | nothing => simp
  | @decimals s hnumeral =>
      have hlt : (value s : ℚ) < 10 ^ s.length := by
        exact_mod_cast Decimal.value_lt (isNumeral_iff.mp hnumeral).2
      exact ⟨by positivity, (div_lt_one (by positivity)).mpr hlt⟩

theorem FractionText.unique (hx : FractionText f x) (hy : FractionText f y) :
    x = y := by
  cases hx <;> cases hy <;> rfl

theorem FractionText.madeOf (hf : FractionText f x) : Text.MadeOf ['.'] f := by
  cases hf with
  | nothing => exact nofun
  | decimals hnumeral =>
      exact Text.MadeOf.cons
        (fun c hc => .inr ((isNumeral_iff.mp hnumeral).2 c hc)) (by simp)

theorem ClockText.length_eq {n : Nat} (hs : ClockText s n) : s.length = 8 := by
  cases hs with
  | fields hhour hminute hsecond =>
      simp [hhour.length, hminute.length, hsecond.length]

theorem ClockText.lt {n : Nat} (hs : ClockText s n) : n < 86400 := by
  cases hs with
  | fields hhour hminute hsecond hday hhours hminutes => omega

theorem SecondText.madeOf (hs : SecondText kind s n) :
    Text.MadeOf ['+', '-', 'T', ':'] s := by
  cases hs with
  | time hclock => exact hclock.madeOf.mono (by simp)
  | dateTime hdate hvalid hclock =>
      exact (hdate.madeOf.mono (by simp)).append
        ((hclock.madeOf.mono (by simp)).cons (by simp))

/-- The last characters are those of a clock. -/
theorem SecondText.exists_clock (hs : SecondText kind s n) :
    ∃ front c m, s = front ++ c ∧ ClockText c m := by
  cases hs with
  | time hclock => exact ⟨[], _, _, rfl, hclock⟩
  | @dateTime d _ _ _ hdate hvalid hclock =>
      exact ⟨d ++ ['T'], _, _, by simp, hclock⟩

theorem Tells.bare (hs : Tells kind s x) : Value.Bare s := by
  cases hs with
  | @fields s f n x hsecond hfraction =>
      have hmade : Text.MadeOf ['+', '-', 'T', ':', '.'] (s ++ f) :=
        (hsecond.madeOf.mono (by simp)).append (hfraction.madeOf.mono (by simp))
      obtain ⟨front, c, m, rfl, hclock⟩ := hsecond.exists_clock
      have hback : Text.MadeOf [':', '.'] (c ++ f) :=
        (hclock.madeOf.mono (by simp)).append (hfraction.madeOf.mono (by simp))
      refine ⟨hmade.solid rfl, hmade.not_mem (by decide) rfl, ?_⟩
      rw [List.append_assoc]
      refine Value.beforeOffset?_append ?_
        ⟨hback.not_mem (by decide) rfl, hback.not_mem (by decide) rfl⟩
      rw [List.length_append, hclock.length_eq]
      omega

/-- The fraction is told apart by its point. -/
theorem FractionText.takeWhile (hf : FractionText f x) (hs : '.' ∉ s) :
    (s ++ f).takeWhile (· != '.') = s ∧ (s ++ f).dropWhile (· != '.') = f := by
  have hall : ∀ c ∈ s, (c != '.') = true := by
    intro c hc
    simpa using ne_of_mem_of_not_mem hc hs
  rw [List.takeWhile_append_of_pos hall, List.dropWhile_append_of_pos hall]
  cases hf <;> simp

theorem Tells.floor (hs : Tells kind s x) :
    SecondText kind (s.takeWhile (· != '.')) ⌊x⌋ ∧
      FractionText (s.dropWhile (· != '.')) (x - ⌊x⌋) := by
  cases hs with
  | @fields s f n x hsecond hfraction =>
      obtain ⟨htake, hdrop⟩ := hfraction.takeWhile
        (hsecond.madeOf.not_mem (by decide) rfl)
      have hfloor : ⌊(n : ℚ) + x⌋ = n := by
        rw [Int.floor_intCast_add, Int.floor_eq_zero_iff.mpr hfraction.mem_Ico,
          Int.add_zero]
      rw [htake, hdrop, hfloor, add_sub_cancel_left]
      exact ⟨hsecond, hfraction⟩

theorem SecondText.tells (hs : SecondText kind s n) : Tells kind s n := by
  simpa using Tells.fields hs .nothing

theorem secondText_time (hleast : 0 ≤ n) (hgreatest : n < daySeconds) :
    SecondText .time (writeClock n.toNat) n := by
  have hclock := clockText_writeClock (show n.toNat < 86400 by
    unfold daySeconds at hgreatest
    omega)
  have hn : (n.toNat : Int) = n := Int.toNat_of_nonneg hleast
  exact hn ▸ SecondText.time hclock

theorem secondText_dateTime {date : Date} (hvalid : date.Valid)
    (hdate : date.dayNumber = n / daySeconds + epochDay) :
    SecondText .dateTime
      (date.write ++ 'T' :: writeClock (n % daySeconds).toNat)
      n := by
  unfold daySeconds at hdate ⊢
  have hclock := clockText_writeClock (show (n % 86400).toNat < 86400 by omega)
  have hn : (date.dayNumber - epochDay) * daySeconds +
      (n % 86400).toNat = n := by
    unfold daySeconds
    omega
  conv => arg 3; rw [← hn]
  exact .dateTime (dateText_write hvalid) hvalid hclock

/-- A time of day lies within the day. -/
theorem isSecond_time_iff :
    IsSecond .time n ↔ n ∈ Set.Icc 0 (daySeconds - 1) := by
  constructor
  · rintro ⟨s, ⟨hclock⟩⟩
    have hlt := hclock.lt
    simp only [Set.mem_Icc, daySeconds]
    omega
  · rintro ⟨hleast, hgreatest⟩
    exact ⟨_, secondText_time hleast (by omega)⟩

/-- An instant lies within a day of a date. -/
theorem isSecond_dateTime_iff : IsSecond .dateTime n ↔
    ∃ date : Date, date.Valid ∧ date.dayNumber = n / daySeconds + epochDay := by
  constructor
  · rintro ⟨s, hs⟩
    cases hs with
    | @dateTime _ _ date m hdate hvalid hclock =>
        have hlt := hclock.lt
        refine ⟨date, hvalid, ?_⟩
        unfold daySeconds
        omega
  · rintro ⟨date, hvalid, hdate⟩
    exact ⟨_, secondText_dateTime hvalid hdate⟩

/-- The instants go from the start of the first day to the end of the last. -/
theorem setOf_isSecond_dateTime : {n | IsSecond .dateTime n} =
    Set.Icc ((Date.daysBefore firstYear + 1 - epochDay) * daySeconds)
      ((Date.daysBefore (lastYear + 1) + 1 - epochDay) * daySeconds - 1) := by
  ext n
  change IsSecond .dateTime n ↔ _
  rw [isSecond_dateTime_iff]
  unfold daySeconds
  constructor
  · rintro ⟨date, hvalid, hdate⟩
    have hleast := hvalid.daysBefore_lt
    have hgreatest := hvalid.dayNumber_le
    simp only [Set.mem_Icc]
    omega
  · rintro ⟨hleast, hgreatest⟩
    exact Date.exists_dayNumber (by omega) (by omega)

theorem NamesInstant.tells {text : String} (hx : NamesInstant kind text x) :
    Tells kind (Value.withoutZone text.toList) x :=
  hx.withoutZone fun _ hs => hs.bare

theorem NamesInstant.isSecond_floor {text : String}
    (hx : NamesInstant kind text x) : IsSecond kind ⌊x⌋ :=
  ⟨_, hx.tells.floor.1⟩

/-- What keeps to the bounds keeps to them without their fractions, if it does
to an exclusive upper bound. -/
theorem within_cut {facets : Facets} {z : Int}
    (hwithin : facets.Within (NamesInstant kind) (z : ℚ))
    (hupper : ∀ text ∈ facets.maxExclusive,
      ∃ n, NamesSecond kind text n ∧ z < n) :
    facets.Within (NamesSecond kind) z where
  minInclusive text htext := by
    obtain ⟨x, hx, hle⟩ := hwithin.minInclusive text htext
    exact ⟨_, ⟨x, hx, rfl⟩, Int.cast_le.mp ((Int.floor_le x).trans hle)⟩
  minExclusive text htext := by
    obtain ⟨x, hx, hlt⟩ := hwithin.minExclusive text htext
    exact ⟨_, ⟨x, hx, rfl⟩, Int.floor_lt.mpr hlt⟩
  maxInclusive text htext := by
    obtain ⟨x, hx, hle⟩ := hwithin.maxInclusive text htext
    exact ⟨_, ⟨x, hx, rfl⟩, Int.le_floor.mpr hle⟩
  maxExclusive := hupper

end Calendar

namespace Value.Layout

open Calendar

/-- The layout counts the seconds of a kind: it reads them without their
fraction and writes them. -/
structure Counts (layout : Layout) (kind : Kind) : Prop where
  covers : layout.Covers {n | IsSecond kind n}
  neighbours : ∀ n, IsSecond kind n → InRange (n - 1) ∧ InRange (n + 1)
  read_beforePoint : ∀ s n, SecondText kind (beforePoint s) n →
    layout.read s = some n
  isSome_write : ∀ n, IsSecond kind n → (layout.write n).isSome
  secondText_of_write : ∀ n s, layout.write n = some s → SecondText kind s n

theorem counts_time : Counts time .time where
  covers := by
    have hseconds : {n | IsSecond .time n} = Set.Icc 0 (daySeconds - 1) :=
      Set.ext fun _ => isSecond_time_iff
    rw [hseconds]
    exact covers_Icc (by decide) (by decide)
  neighbours n hn := by
    obtain ⟨hleast, hgreatest⟩ := isSecond_time_iff.mp hn
    unfold daySeconds at hgreatest
    unfold InRange Number.least Number.greatest
    omega
  read_beforePoint s n hs := by
    cases hs with
    | time hclock => exact hclock.readClock
  isSome_write n hn := by
    obtain ⟨hleast, hgreatest⟩ := isSecond_time_iff.mp hn
    unfold daySeconds at hgreatest
    simp only [time]
    rw [if_pos ⟨hleast, by omega⟩]
    rfl
  secondText_of_write n s hs := by
    simp only [time] at hs
    split_ifs at hs with hday
    cases hs
    exact secondText_time hday.1 hday.2

theorem counts_dateTime : Counts dateTime .dateTime where
  covers := by
    rw [setOf_isSecond_dateTime]
    exact covers_Icc (by decide) (by decide)
  neighbours n hn := by
    have hn : n ∈ {n | IsSecond .dateTime n} := hn
    rw [setOf_isSecond_dateTime] at hn
    obtain ⟨hleast, hgreatest⟩ := hn
    have hfirst : Number.least <
        (Date.daysBefore Calendar.firstYear + 1 - epochDay) * daySeconds := by
      decide
    have hlast : (Date.daysBefore (Calendar.lastYear + 1) + 1 - epochDay) *
        daySeconds ≤ Number.greatest := by decide
    unfold InRange
    unfold Number.least Number.greatest at *
    omega
  read_beforePoint s n hs := by
    generalize hpoint : beforePoint s = t at hs
    cases hs with
    | @dateTime d c date m hdate hvalid hclock =>
        change readInstant (beforePoint s) = _
        rw [hpoint]
        simp only [readInstant, hdate.readDatePart hvalid, readMark_cons,
          hclock.readClock, Option.bind_eq_bind, Option.bind_some]
        rfl
  isSome_write n hn := by
    obtain ⟨date, hvalid, hdate⟩ := isSecond_dateTime_iff.mp hn
    change (writeInstant? n).isSome
    rw [writeInstant?, ← hdate, hvalid.ofDayNumber?]
    rfl
  secondText_of_write n s hs := by
    obtain ⟨date, hdate, rfl⟩ := Option.map_eq_some_iff.mp hs
    obtain ⟨hvalid, hnumber⟩ := Date.ofDayNumber?_eq_some hdate
    exact secondText_dateTime hvalid hnumber

/-- Every kind that has seconds is counted by its layout. -/
theorem exists_counts {kind : Kind} {n : Int} (hn : IsSecond kind n) :
    ∃ layout, ofKind? kind = some layout ∧ layout.Counts kind := by
  obtain ⟨s, hs⟩ := hn
  cases hs with
  | time => exact ⟨time, rfl, counts_time⟩
  | dateTime => exact ⟨dateTime, rfl, counts_dateTime⟩

namespace Counts

variable {layout : Layout} {kind : Kind} {facets : Facets} {text : String}
  {x y : ℚ} {n z : Int}

variable (hlayout : layout.Counts kind)

include hlayout

/-- The seconds of what a text names are read. -/
theorem read_withoutZone (hx : NamesInstant kind text x) :
    layout.read (withoutZone text.toList) = some ⌊x⌋ :=
  hlayout.read_beforePoint _ _ hx.tells.floor.1

theorem finds : layout.Finds (NamesSecond kind) := by
  rintro text _ ⟨x, hx, rfl⟩
  exact hlayout.read_withoutZone hx

/-- A text names no more than one number of seconds. -/
theorem unique (hx : NamesInstant kind text x) (hy : NamesInstant kind text y) :
    x = y := by
  have hfloor : ⌊x⌋ = ⌊y⌋ := Option.some_inj.mp
    ((hlayout.read_withoutZone hx).symm.trans (hlayout.read_withoutZone hy))
  have hfraction := hx.tells.floor.2.unique hy.tells.floor.2
  rwa [hfloor, sub_left_inj] at hfraction

/-- What is written for a number, if anything is, names it exactly. -/
theorem exists_written_iff {property : ℚ → Prop} :
    (∃ text ∈ (layout.write n).map String.ofList,
      ∃ x, NamesInstant kind text x ∧ property x) ↔
      IsSecond kind n ∧ property n := by
  constructor
  · rintro ⟨text, htext, x, hx, hproperty⟩
    obtain ⟨s, hwrite, rfl⟩ := Option.map_eq_some_iff.mp htext
    have hs := hlayout.secondText_of_write n s hwrite
    obtain rfl : x = n := hlayout.unique hx (around_ofList hs.tells)
    exact ⟨⟨s, hs⟩, hproperty⟩
  · rintro ⟨hn, hproperty⟩
    obtain ⟨s, hwrite⟩ :=
      Option.isSome_iff_exists.mp (hlayout.isSome_write n hn)
    have hs := hlayout.secondText_of_write n s hwrite
    exact ⟨_, Option.map_eq_some_iff.mpr ⟨s, hwrite, rfl⟩, n,
      around_ofList hs.tells, hproperty⟩

/-- Where no inclusive lower bound has a fraction, what keeps to the bounds that
are cut keeps to the bounds. -/
theorem within_of_cut (hcut : facets.Within (NamesSecond kind) z)
    (hlower : ∀ text ∈ facets.minInclusive, ∃ n : Int,
      NamesInstant kind text n) :
    facets.Within (NamesInstant kind) (z : ℚ) where
  minInclusive text htext := by
    obtain ⟨m, hm⟩ := hlower text htext
    obtain ⟨n, ⟨x, hx, rfl⟩, hle⟩ := hcut.minInclusive text htext
    obtain rfl := hlayout.unique hx hm
    exact ⟨m, hm, Int.cast_le.mpr (by rwa [Int.floor_intCast] at hle)⟩
  minExclusive text htext := by
    obtain ⟨n, ⟨x, hx, rfl⟩, hlt⟩ := hcut.minExclusive text htext
    exact ⟨x, hx, Int.floor_lt.mp hlt⟩
  maxInclusive text htext := by
    obtain ⟨n, ⟨x, hx, rfl⟩, hle⟩ := hcut.maxInclusive text htext
    exact ⟨x, hx, Int.le_floor.mp hle⟩
  maxExclusive text htext := by
    obtain ⟨n, ⟨x, hx, rfl⟩, hlt⟩ := hcut.maxExclusive text htext
    exact ⟨x, hx, (Int.cast_lt.mpr hlt).trans_le (Int.floor_le x)⟩

section Bounds

variable (hone : facets.OneBoundEach)
  (hwithin : facets.Within (NamesInstant kind) (z : ℚ))

include hone hwithin

/-- Every limit comes to the seconds that it names, or to their neighbour. -/
theorem exists_bound? {side : Side} {limit : Limit}
    (hlimit : limit ∈ facets.limit? side) :
    ∃ x, NamesInstant kind limit.value x ∧
      InRange (Scaled.inward limit.exclusive side ⌊x⌋) ∧
      layout.bound? limit side =
        some (Scaled.inward limit.exclusive side ⌊x⌋) := by
  obtain ⟨x, hx, -⟩ := hone.within_iff.mp hwithin side limit hlimit
  have hfloor := hx.isSecond_floor
  have hrange : InRange (Scaled.inward limit.exclusive side ⌊x⌋) := by
    obtain ⟨hbefore, hbehind⟩ := hlayout.neighbours _ hfloor
    have hself := hlayout.covers.inRange _ hfloor
    cases side <;> cases limit.exclusive <;> assumption
  exact ⟨x, hx, hrange, hlayout.finds.bound?_eq ⟨x, hx, rfl⟩ hrange⟩

theorem inRange_range :
    InRange (layout.range facets).1 ∧ InRange (layout.range facets).2 := by
  refine range_ends (ends_facetBounds fun side limit hlimit bound hbound => ?_)
    (hlayout.covers.inRange _ hlayout.covers.first_mem)
    (hlayout.covers.inRange _ hlayout.covers.last_mem)
  obtain ⟨x, -, hrange, hbound'⟩ := hlayout.exists_bound? hone hwithin hlimit
  cases hbound'.symm.trans hbound
  exact hrange

variable (hall : ∀ n ∈ Set.uIcc (layout.range facets).1 (layout.range facets).2,
  IsSecond kind n ∧ facets.Within (NamesInstant kind) (n : ℚ))

include hall

/-- If all that is drawn keeps to the bounds, an inclusive lower bound has no
fraction: without it the bound is drawn from some state. -/
theorem exists_whole (htext : text ∈ facets.minInclusive) :
    ∃ n : Int, NamesInstant kind text n := by
  have hlimit : ⟨text, false⟩ ∈ facets.limit? .lower := by
    simp [Facets.limit?, Facets.lower, Option.mem_def.mp htext]
  obtain ⟨x, hx, -, hbound⟩ := hlayout.exists_bound? hone hwithin hlimit
  obtain ⟨-, hkeeps⟩ := hall ⌊x⌋ (mem_uIcc_range hlimit hbound)
  obtain ⟨y, hy, hle⟩ := hkeeps.minInclusive text htext
  obtain rfl := hlayout.unique hx hy
  exact ⟨⌊x⌋, (Int.floor_le x).antisymm hle ▸ hx⟩

/-- If all that is drawn keeps to the bounds, some of it keeps to them without
their fractions: with an exclusive upper bound that is the second before it. -/
theorem exists_cut :
    ∃ z, IsSecond kind z ∧ facets.Within (NamesSecond kind) z := by
  rcases hexclusive : facets.maxExclusive with _ | text
  · obtain ⟨hn, hkeeps⟩ := hall _ Set.left_mem_uIcc
    exact ⟨_, hn, within_cut hkeeps (by simp [hexclusive])⟩
  · have hinclusive : facets.maxInclusive = none :=
      hone.upper.resolve_right (by simp [hexclusive])
    have hlimit : ⟨text, true⟩ ∈ facets.limit? .upper := by
      simp [Facets.limit?, Facets.upper, hexclusive, hinclusive]
    obtain ⟨x, hx, -, hbound⟩ := hlayout.exists_bound? hone hwithin hlimit
    obtain ⟨hn, hkeeps⟩ := hall (⌊x⌋ - 1) (mem_uIcc_range hlimit hbound)
    refine ⟨_, hn, within_cut hkeeps ?_⟩
    intro text' htext'
    cases hexclusive.symm.trans htext'
    exact ⟨⌊x⌋, ⟨x, hx, rfl⟩, Int.sub_one_lt_of_le (Int.le_refl _)⟩

end Bounds

end Counts

/-- If a whole second keeps to the bounds of the facets, a text that names
seconds within the bounds is always drawn exactly if no inclusive lower bound
has a fraction and some second keeps to the bounds without their fractions. -/
theorem clock_draws_iff {layout : Layout} {kind : Kind} {facets : Facets}
    (hkind : ofKind? kind = some layout) (hone : facets.OneBoundEach)
    (hsome : ∃ z, IsSecond kind z ∧ facets.Within (NamesInstant kind) (z : ℚ)) :
    (∀ s, ∃ text ∈ (layout.draw facets s).1, ∃ x, NamesInstant kind text x ∧
      facets.Within (NamesInstant kind) x) ↔
      (∀ text ∈ facets.minInclusive, ∃ n : Int, NamesInstant kind text n) ∧
        ∃ z, IsSecond kind z ∧ facets.Within (NamesSecond kind) z := by
  obtain ⟨w, hw, hwithin⟩ := hsome
  obtain ⟨layout', hkind', hlayout⟩ := exists_counts hw
  obtain rfl : layout' = layout := Option.some_inj.mp (hkind'.symm.trans hkind)
  have hdraws := @forall_draw_iff layout' facets
    (hlayout.inRange_range hone hwithin) fun drawn =>
      ∃ text ∈ drawn, ∃ x, NamesInstant kind text x ∧
        facets.Within (NamesInstant kind) x
  rw [hdraws]
  simp only [hlayout.exists_written_iff]
  constructor
  · intro hall
    exact ⟨fun text htext => hlayout.exists_whole hone hwithin hall htext,
      hlayout.exists_cut hone hwithin hall⟩
  · rintro ⟨hlower, z, hz, hcut⟩
    obtain ⟨hle, hrange, -⟩ := range_within hlayout.covers hlayout.finds
      (by rintro text _ ⟨x, hx, rfl⟩; exact hx.isSecond_floor) hone hz hcut
    rw [Set.uIcc_of_le hle]
    intro n hn
    exact ⟨(hrange n hn).1, hlayout.within_of_cut (hrange n hn).2 hlower⟩

namespace ClockWitness

/-- A clock that is written names its seconds, with a fraction behind it. -/
theorem names_clock {text : String} {n : Nat} {f : List Char} {x : ℚ}
    (hn : n < 86400) (htext : text.toList = writeClock n ++ f)
    (hfraction : FractionText f x) :
    NamesInstant .time text ((n : Int) + x) :=
  ⟨[], writeClock n ++ f, [], by rw [htext]; simp, Text.blank_nil,
    Text.blank_nil, .fields (.time (clockText_writeClock hn)) hfraction⟩

theorem names_whole {text : String} {n : Nat} (hn : n < 86400)
    (htext : text.toList = writeClock n) :
    NamesInstant .time text (n : Int) := by
  simpa using names_clock hn (by simpa using htext) .nothing

theorem fractionText_half : FractionText ['.', '5'] (1 / 2) := by
  have hvalue : (value ['5'] : ℚ) / 10 ^ ['5'].length = 1 / 2 := by
    have hfive : value ['5'] = 5 := rfl
    rw [hfive]
    norm_num
  rw [← hvalue]
  exact .decimals rfl

/-- From ten o'clock until two and a half seconds later. -/
def opening : Facets where
  minInclusive := some "10:00:00"
  maxExclusive := some "10:00:02.5"

/-- From half a second after ten o'clock to a second after it. -/
def halfPast : Facets where
  minInclusive := some "10:00:00.5"
  maxInclusive := some "10:00:01"

theorem names_ten : NamesInstant .time "10:00:00" ((36000 : Int) : ℚ) :=
  names_whole (by decide) rfl

theorem names_end : NamesInstant .time "10:00:02.5" ((36002 : Int) + 1 / 2) :=
  names_clock (by decide) rfl fractionText_half

theorem names_half : NamesInstant .time "10:00:00.5" ((36000 : Int) + 1 / 2) :=
  names_clock (by decide) rfl fractionText_half

theorem opening_within :
    opening.Within (NamesInstant .time) ((36000 : Int) : ℚ) where
  minInclusive := by
    rintro text ⟨⟩
    exact ⟨_, names_ten, le_refl _⟩
  minExclusive := nofun
  maxInclusive := nofun
  maxExclusive := by
    rintro text ⟨⟩
    exact ⟨_, names_end, by norm_num⟩

/-- Between ten o'clock and a bound with a fraction above it all is drawn as it
should be. -/
theorem opening_drawn :
    ofKind? .time = some time ∧ opening.OneBoundEach ∧
      (∃ z, IsSecond .time z ∧ opening.Within (NamesInstant .time) (z : ℚ)) ∧
      ∀ s, ∃ text ∈ (time.draw opening s).1, ∃ x, NamesInstant .time text x ∧
        opening.Within (NamesInstant .time) x := by
  have hone : opening.OneBoundEach := ⟨.inr rfl, .inl rfl⟩
  have hten : IsSecond .time 36000 := isSecond_time_iff.mpr (by decide)
  have hsome : ∃ z, IsSecond .time z ∧
      opening.Within (NamesInstant .time) (z : ℚ) :=
        ⟨36000, hten, opening_within⟩
  refine ⟨rfl, hone, hsome,
    (clock_draws_iff rfl hone hsome).mpr ⟨?_, 36000, hten, ?_⟩⟩
  · rintro text ⟨⟩
    exact ⟨36000, names_ten⟩
  · refine within_cut opening_within ?_
    rintro text ⟨⟩
    exact ⟨36002, ⟨_, names_end, by norm_num⟩, by decide⟩

/-- A second after ten o'clock keeps to the bounds from half a second after it,
and yet ten o'clock is drawn. -/
theorem halfPast_missed :
    halfPast.Within (NamesInstant .time) ((36001 : Int) : ℚ) ∧
      (time.draw halfPast (Session.ofSeed 1).stream).1 = some "10:00:00" ∧
      NamesInstant .time "10:00:00" ((36000 : Int) : ℚ) ∧
      ¬ halfPast.Within (NamesInstant .time) ((36000 : Int) : ℚ) := by
  refine ⟨⟨?_, nofun, ?_, nofun⟩, by decide +kernel, names_ten, ?_⟩
  · rintro text ⟨⟩
    exact ⟨_, names_half, by norm_num⟩
  · rintro text ⟨⟩
    exact ⟨(36001 : Int), names_whole (by decide) rfl, le_refl _⟩
  · intro hwithin
    obtain ⟨x, hx, hle⟩ := hwithin.minInclusive _ rfl
    obtain rfl := counts_time.unique hx names_half
    norm_num at hle

end ClockWitness

end Value.Layout

end Specimen
