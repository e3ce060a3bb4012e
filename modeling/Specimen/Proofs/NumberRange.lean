/-
The numbers that are drawn within facets.  If some multiple of 64 bits keeps to
the digits and the limits of the facets, the range between them is not empty,
whatever becomes of limits that 64 bits do not hold, and every multiple drawn
from it keeps to them too.
-/
import Specimen.Proofs.DrawRange
import Specimen.Proofs.MergedBounds
import Specimen.Proofs.ScaledBound
import Specimen.Value.Numeric

namespace Specimen

open Number (InRange)
open Scaled (Side)

/-- The side of the facets as one limit, the inclusive one first. -/
def Facets.limit? (facets : Facets) : Side → Option Limit
  | .lower => facets.lower
  | .upper => facets.upper

namespace Limit

/-- The number keeps to the decimal that the limit is written as. -/
def Meets (limit : Limit) (side : Side) (y : ℚ) : Prop :=
  ∃ x, Decimal.Expresses limit.value x ∧ side.Meets limit.exclusive x y

/-- The number lies on the inner side of the number that the limit denotes. -/
def Admits (limit : Limit) (side : Side) (z : Int) : Prop :=
  ∃ n, Decimal.Denotes limit.value n ∧
    side.Keeps (Scaled.inward limit.exclusive side n) z

@[simp] theorem admits_inclusive {text : String} {side : Side} {z : Int} :
    Admits ⟨text, false⟩ side z ↔
      ∃ n, Decimal.Denotes text n ∧ side.Keeps n z := by
  cases side <;> exact Iff.rfl

@[simp] theorem admits_lower_exclusive {text : String} {z : Int} :
    Admits ⟨text, true⟩ .lower z ↔ ∃ n, Decimal.Denotes text n ∧ n < z :=
  Iff.rfl

@[simp] theorem admits_upper_exclusive {text : String} {z : Int} :
    Admits ⟨text, true⟩ .upper z ↔ ∃ n, Decimal.Denotes text n ∧ z < n :=
  exists_congr fun _ => and_congr_right fun _ => Int.le_sub_one_iff

/-- A limit that denotes a whole number is met as that number says. -/
theorem admits_iff_meets {limit : Limit} {side : Side} {n z : Int}
    (hn : Decimal.Denotes limit.value n) :
    limit.Admits side z ↔ limit.Meets side z := by
  rw [Admits, hn.exists_iff, Meets, hn.expresses.exists_iff,
    Scaled.keeps_inward_iff]

end Limit

namespace Value

/-- The bounds that the digits of the facets set. -/
def digitBounds (facets : Facets) : Bounds :=
  match facets.totalDigits with
  | some n => Bounds.ofDigits n
  | none => {}

theorem ends_digitBounds (facets : Facets) :
    (digitBounds facets).Ends InRange := by
  have hlimit (n : Nat) : Number.tenTo (min n 18) ≤ 1000000000000000000 :=
    Nat.pow_le_pow_right (by decide) (Nat.min_le_right n 18)
  unfold digitBounds
  cases facets.totalDigits with
  | none => simp [Bounds.Ends]
  | some n =>
      have hle := hlimit n
      have hpos := Scaled.tenTo_pos (min n 18)
      simp only [Bounds.Ends, Bounds.ofDigits, Option.mem_def,
        Option.some.injEq, forall_eq', InRange, Number.least, Number.greatest]
      omega

theorem ends_facetBounds (facets : Facets) (scale : Nat) :
    (facetBounds facets scale).Ends InRange := by
  constructor
  · intro low hlow
    obtain ⟨limit, -, hbound⟩ := Option.bind_eq_some_iff.mp hlow
    exact Scaled.inRange_of_bound hbound
  · intro high hhigh
    obtain ⟨limit, -, hbound⟩ := Option.bind_eq_some_iff.mp hhigh
    exact Scaled.inRange_of_bound hbound

theorem ends_onGrid (numbers : Bounds) (scale : Nat) :
    (onGrid numbers scale).Ends InRange := by
  constructor
  · intro low hlow
    obtain ⟨n, -, rfl⟩ := Option.map_eq_some_iff.mp hlow
    exact Number.inRange_clamp _
  · intro high hhigh
    obtain ⟨n, -, rfl⟩ := Option.map_eq_some_iff.mp hhigh
    exact Number.inRange_clamp _

theorem facetBounds_admits_iff {facets : Facets} {scale : Nat} {z : Int} :
    (facetBounds facets scale).Admits z ↔
      ∀ side, ∀ limit ∈ facets.limit? side,
        ∀ bound ∈ Scaled.bound limit.value scale limit.exclusive side,
          side.Keeps bound z := by
  constructor
  · intro hadmits side limit hlimit bound hbound
    cases side with
    | lower =>
        exact hadmits.1 bound
          (Option.bind_eq_some_iff.mpr ⟨limit, hlimit, hbound⟩)
    | upper =>
        exact hadmits.2 bound
          (Option.bind_eq_some_iff.mpr ⟨limit, hlimit, hbound⟩)
  · intro hkeeps
    constructor
    · intro low hlow
      obtain ⟨limit, hlimit, hbound⟩ := Option.bind_eq_some_iff.mp hlow
      exact hkeeps .lower limit hlimit low hbound
    · intro high hhigh
      obtain ⟨limit, hlimit, hbound⟩ := Option.bind_eq_some_iff.mp hhigh
      exact hkeeps .upper limit hlimit high hbound

end Value

/-- The multiple has 64 bits and keeps to the digits and limits of the facets on
the grid of a scale. -/
structure Facets.Suits (facets : Facets) (scale : Nat) (n : Int) : Prop where
  inRange : InRange n
  digits : (Value.digitBounds facets).Admits n
  limits : ∀ side, ∀ limit ∈ facets.limit? side,
    limit.Meets side (n / 10 ^ scale)

/-- If any multiple of 64 bits suits the facets, those that do are told by the
bounds that the facets set on the grid. -/
theorem Facets.Suits.iff_admits {facets : Facets} {scale : Nat} {w z : Int}
    (hw : facets.Suits scale w) (hrange : InRange z) :
    facets.Suits scale z ↔ (Value.digitBounds facets).Admits z ∧
      (Value.facetBounds facets scale).Admits z := by
  have hlimit {side : Side} {limit : Limit}
      (hlimit : limit ∈ facets.limit? side) :
      limit.Meets side (z / 10 ^ scale) ↔
        ∀ bound ∈ Scaled.bound limit.value scale limit.exclusive side,
          side.Keeps bound z := by
    obtain ⟨x, hx, hmeets⟩ := hw.limits side limit hlimit
    rw [Limit.Meets, hx.exists_iff,
      Scaled.keeps_bound_iff hx hmeets hw.inRange hrange]
  rw [Value.facetBounds_admits_iff]
  constructor
  · intro hz
    exact ⟨hz.digits, fun side limit h =>
      (hlimit h).mp (hz.limits side limit h)⟩
  · rintro ⟨hdigits, hkeeps⟩
    exact ⟨hrange, hdigits,
      fun side limit h => (hlimit h).mpr (hkeeps side limit h)⟩

namespace Value

theorem inRange_span (scale : Nat) :
    0 ≤ Number.clamp (usualGreatest * Number.tenTo scale) ∧
      InRange (Number.clamp (usualGreatest * Number.tenTo scale)) := by
  have hpos := Scaled.tenTo_pos scale
  refine ⟨?_, Number.inRange_clamp _⟩
  unfold usualGreatest Number.clamp Number.least Number.greatest
  omega

/-- Closing a range puts a side that is missing a span away from the other, or
from zero, as far as 64 bits go. -/
theorem closeRange_inRange {b : Bounds} (hends : b.Ends InRange) (scale : Nat) :
    InRange (closeRange b scale).1 ∧ InRange (closeRange b scale).2 := by
  rcases b with ⟨_ | low, _ | high⟩
  · exact ⟨(by decide : InRange 0), (inRange_span scale).2⟩
  · exact ⟨Number.inRange_clamp _, hends.2 high rfl⟩
  · exact ⟨hends.1 low rfl, Number.inRange_clamp _⟩
  · exact ⟨hends.1 low rfl, hends.2 high rfl⟩

/-- Closing a range that holds a number leaves a range within it. -/
theorem closeRange_within {b : Bounds} (hb : b.interval.Nonempty)
    (hends : b.Ends InRange) (scale : Nat) :
    (closeRange b scale).1 ≤ (closeRange b scale).2 ∧
      ∀ z, (closeRange b scale).1 ≤ z → z ≤ (closeRange b scale).2 →
        b.Admits z := by
  obtain ⟨hnonneg, hspan⟩ := inRange_span scale
  unfold closeRange
  generalize Number.clamp (usualGreatest * Number.tenTo scale) = span at *
  rcases b with ⟨_ | low, _ | high⟩
  · exact ⟨hnonneg, by simp [Bounds.Admits]⟩
  · have hhigh := hends.2 high rfl
    constructor
    · unfold InRange Number.least Number.greatest at hhigh
      dsimp only
      unfold Number.clamp Number.least Number.greatest
      omega
    · intro z _ hz
      simpa [Bounds.Admits] using hz
  · have hlow := hends.1 low rfl
    constructor
    · unfold InRange Number.least Number.greatest at hlow
      dsimp only
      unfold Number.clamp Number.least Number.greatest
      omega
    · intro z hz _
      simpa [Bounds.Admits] using hz
  · obtain ⟨w, hw⟩ := hb
    have hle : low ≤ high := Int.le_trans (hw.1 low rfl) (hw.2 high rfl)
    exact ⟨hle, fun z hlowz hzhigh =>
      ⟨by simpa using hlowz, by simpa using hzhigh⟩⟩

theorem numberRange_eq (facets : Facets) (numbers : Bounds) (scale : Nat) :
    numberRange facets numbers scale true =
      closeRange (Bounds.merge (digitBounds facets) (facetBounds facets scale)
        (onGrid numbers scale)) scale := by
  unfold numberRange digitBounds
  cases facets.totalDigits <;> rfl

theorem inRange_numberRange (facets : Facets) (numbers : Bounds) (scale : Nat) :
    InRange (numberRange facets numbers scale true).1 ∧
      InRange (numberRange facets numbers scale true).2 := by
  rw [numberRange_eq]
  exact closeRange_inRange ((ends_digitBounds facets).merge
    (ends_facetBounds facets scale) (ends_onGrid numbers scale)) scale

/-- The multiple that is drawn within facets. -/
def drawn (facets : Facets) (numbers : Bounds) (scale : Nat)
    (s : Stream) : Int :=
  let range := numberRange facets numbers scale true
  (Draw.integer range.1 range.2 s).1

/-- Whatever the facets say, what is drawn has 64 bits. -/
theorem inRange_drawn (facets : Facets) (numbers : Bounds) (scale : Nat)
    (s : Stream) : InRange (drawn facets numbers scale s) := by
  obtain ⟨hleast, hmost⟩ := inRange_numberRange facets numbers scale
  exact Draw.inRange_integer hleast hmost s

theorem number_eq (facets : Facets) (numbers : Bounds) (asked : Nat)
    (s : Stream) :
    let scale := min asked greatestScale
    (number facets numbers asked true s).1 =
      String.ofList (Scaled.write (drawn facets numbers scale s) scale) :=
  rfl

/-- Where a multiple suits the facets, so does the one that is drawn, and it
keeps to the settings where one that suits the facets does. -/
theorem drawn_suits {facets : Facets} {scale : Nat} {w : Int}
    (hw : facets.Suits scale w) (numbers : Bounds) (s : Stream) :
    facets.Suits scale (drawn facets numbers scale s) ∧
      ((∃ v, facets.Suits scale v ∧ (onGrid numbers scale).Admits v) →
        (onGrid numbers scale).Admits (drawn facets numbers scale s)) := by
  have hbetween : (facetBounds facets scale).between =
      (facetBounds facets scale).interval :=
    Bounds.between_of_admits ((hw.iff_admits hw.inRange).mp hw).2
  have hmember {v : Int} (hv : facets.Suits scale v) :
      v ∈ (digitBounds facets).interval ∩ (facetBounds facets scale).between :=
    hbetween ▸ (hw.iff_admits hv.inRange).mp hv
  have htightened := Bounds.Tightened.of_interval ⟨w, hmember hw⟩
    (Bounds.interval_merge ⟨w, hmember hw⟩ (onGrid numbers scale))
  obtain ⟨hle, hwithin⟩ := closeRange_within htightened.nonempty
    ((ends_digitBounds facets).merge (ends_facetBounds facets scale)
      (ends_onGrid numbers scale)) scale
  rw [← numberRange_eq] at hle hwithin
  obtain ⟨hlow, hhigh⟩ := inRange_numberRange facets numbers scale
  obtain ⟨hlowz, hzhigh⟩ := Draw.integer_mem hle hlow hhigh s
  have hdrawn := hwithin (drawn facets numbers scale s) hlowz hzhigh
  refine ⟨(hw.iff_admits (inRange_drawn facets numbers scale s)).mpr ?_, ?_⟩
  · rw [hbetween] at htightened
    exact htightened.subset hdrawn
  · rintro ⟨v, hv, hadmits⟩
    exact Bounds.merge_subset_configured (hmember hv) hadmits hdrawn

theorem whole_eq (facets : Facets) (numbers : Bounds) (s : Stream) :
    (whole facets numbers s).1 =
      String.ofList (Decimal.ofInt (drawn facets numbers 0 s)) :=
  number_eq facets numbers 0 s

/-- Where a 64-bit number keeps to the limits of the facets, so does the whole
number that is drawn. -/
theorem whole_keeps {facets : Facets} (hdigits : facets.totalDigits = none)
    {w : Int} (hwrange : InRange w)
    (hw : ∀ side, ∀ limit ∈ facets.limit? side, limit.Admits side w)
    (s : Stream) :
    ∃ z, Decimal.Denotes (whole facets {} s).1 z ∧
      ∀ side, ∀ limit ∈ facets.limit? side, limit.Admits side z := by
  have hmeets {side : Side} {limit : Limit}
      (hlimit : limit ∈ facets.limit? side)
      (z : Int) : limit.Admits side z ↔ limit.Meets side (z / 10 ^ 0) := by
    obtain ⟨n, hn, -⟩ := hw side limit hlimit
    rw [Limit.admits_iff_meets hn, pow_zero, div_one]
  have hsuits : facets.Suits 0 w := by
    refine ⟨hwrange, ?_, fun side limit h => (hmeets h w).mp (hw side limit h)⟩
    simp [digitBounds, hdigits, Bounds.Admits]
  have hdrawn := (drawn_suits hsuits {} s).1
  refine ⟨drawn facets {} 0 s, ?_, fun side limit h =>
    (hmeets h _).mpr (hdrawn.limits side limit h)⟩
  rw [whole_eq]
  exact Decimal.denotes_ofInt _

end Value

end Specimen
