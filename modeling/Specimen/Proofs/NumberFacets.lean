/-
The values of numeric types and the facets of those types.  What a facet says of
a number is stated for the facet alone.  Whole numbers keep to their facets
whenever a number of 64 bits can; decimals have as many fraction digits as the
facets name, or two, and keep to their facets whenever such a decimal can.
-/
import Specimen.Proofs.NumberRange
import Specimen.Proofs.UnruledValues
import Specimen.Proofs.WrittenMultiples

namespace Specimen

open Number (InRange)
open Scaled (Side)

namespace Decimal

/-- The number can be written with the given number of digits. -/
def HasDigits (digits : Nat) (x : ℚ) : Prop :=
  ∃ (n : Int) (scale : Nat),
    scale ≤ digits ∧ n.natAbs < 10 ^ digits ∧ x = n / 10 ^ scale

/-- The number can be written with the given number of digits behind the
point. -/
def HasFraction (digits : Nat) (x : ℚ) : Prop :=
  ∃ n : Int, x = n / 10 ^ digits

theorem hasFraction_of_le {n : Int} {scale digits : Nat}
    (hle : scale ≤ digits) : HasFraction digits (n / 10 ^ scale) :=
  ⟨n * 10 ^ (digits - scale), Scaled.div_pow_of_le hle n⟩

theorem literal_toList (n : Int) :
    Literal (String.ofList (ofInt n)).toList n := by
  rw [String.toList_ofList]
  exact literal_ofInt n

/-- A whole number of some digits is written with no more of them. -/
theorem countP_isDigit_ofInt_le {n : Int} {digits : Nat} (hpos : 0 < digits)
    (hn : n.natAbs < 10 ^ digits) :
    (ofInt n).countP Char.isDigit ≤ digits := by
  have hlength : (Decimal.digits n.natAbs).length ≤ digits :=
    (Nat.length_toDigits_le_iff (by decide) hpos).mpr hn
  have hcount : (ofInt n).countP Char.isDigit ≤
      (Decimal.digits n.natAbs).length := by
    unfold ofInt padded
    by_cases hneg : n < 0
    · rw [if_pos hneg, zeroPadded_of_le_one (Nat.zero_le _),
        List.countP_cons_of_neg]
      · exact List.countP_le_length
      · decide
    · rw [if_neg hneg, zeroPadded_of_le_one (Nat.le_refl 1)]
      exact List.countP_le_length
  exact Nat.le_trans hcount hlength

end Decimal

namespace Facets

/-- The number keeps to every bound of the facets. -/
structure WithinBounds (facets : Facets) (y : ℚ) : Prop where
  minInclusive : ∀ text ∈ facets.minInclusive,
    ∃ x, Decimal.Expresses text x ∧ x ≤ y
  minExclusive : ∀ text ∈ facets.minExclusive,
    ∃ x, Decimal.Expresses text x ∧ x < y
  maxInclusive : ∀ text ∈ facets.maxInclusive,
    ∃ x, Decimal.Expresses text x ∧ y ≤ x
  maxExclusive : ∀ text ∈ facets.maxExclusive,
    ∃ x, Decimal.Expresses text x ∧ y < x

/-- The facets have at most one bound on each side. -/
structure OneBoundEach (facets : Facets) : Prop where
  lower : facets.minInclusive = Option.none ∨ facets.minExclusive = Option.none
  upper : facets.maxInclusive = Option.none ∨ facets.maxExclusive = Option.none

variable {facets : Facets}

theorem lower_meets_iff {y : ℚ} (hone : facets.minInclusive = Option.none ∨
      facets.minExclusive = Option.none) :
    (∀ limit ∈ facets.lower, limit.Meets .lower y) ↔
      (∀ text ∈ facets.minInclusive, ∃ x, Decimal.Expresses text x ∧ x ≤ y) ∧
        ∀ text ∈ facets.minExclusive, ∃ x,
          Decimal.Expresses text x ∧ x < y := by
  rcases hone with hnone | hnone
  · cases hexclusive : facets.minExclusive <;>
      simp [lower, hnone, hexclusive, Limit.Meets, Side.Meets]
  · cases hinclusive : facets.minInclusive <;>
      simp [lower, hnone, hinclusive, Limit.Meets, Side.Meets]

theorem upper_meets_iff {y : ℚ} (hone : facets.maxInclusive = Option.none ∨
      facets.maxExclusive = Option.none) :
    (∀ limit ∈ facets.upper, limit.Meets .upper y) ↔
      (∀ text ∈ facets.maxInclusive, ∃ x, Decimal.Expresses text x ∧ y ≤ x) ∧
        ∀ text ∈ facets.maxExclusive, ∃ x,
          Decimal.Expresses text x ∧ y < x := by
  rcases hone with hnone | hnone
  · cases hexclusive : facets.maxExclusive <;>
      simp [upper, hnone, hexclusive, Limit.Meets, Side.Meets]
  · cases hinclusive : facets.maxInclusive <;>
      simp [upper, hnone, hinclusive, Limit.Meets, Side.Meets]

/-- With at most one bound on each side the limits say what the facets do. -/
theorem OneBoundEach.withinBounds_iff (hone : facets.OneBoundEach) {y : ℚ} :
    facets.WithinBounds y ↔
      ∀ side, ∀ limit ∈ facets.limit? side, limit.Meets side y := by
  have hlower := @lower_meets_iff facets y hone.lower
  have hupper := @upper_meets_iff facets y hone.upper
  constructor
  · intro hy side
    cases side with
    | lower => exact hlower.mpr ⟨hy.minInclusive, hy.minExclusive⟩
    | upper => exact hupper.mpr ⟨hy.maxInclusive, hy.maxExclusive⟩
  · intro hlimits
    obtain ⟨hminInclusive, hminExclusive⟩ := hlower.mp (hlimits .lower)
    obtain ⟨hmaxInclusive, hmaxExclusive⟩ := hupper.mp (hlimits .upper)
    exact ⟨hminInclusive, hminExclusive, hmaxInclusive, hmaxExclusive⟩

theorem admits_digitBounds_iff {z : Int} :
    (Value.digitBounds facets).Admits z ↔
      ∀ d ∈ facets.totalDigits, z.natAbs < 10 ^ min d 18 := by
  unfold Value.digitBounds
  cases facets.totalDigits with
  | none => simp [Bounds.Admits]
  | some d =>
      have hpos := Scaled.tenTo_pos (min d 18)
      have htenTo : Number.tenTo (min d 18) = 10 ^ min d 18 := rfl
      simp only [Bounds.Admits, Bounds.ofDigits, Option.mem_def,
        Option.some.injEq, forall_eq', ← htenTo]
      omega

/-- On the grid of a scale the multiple has 64 bits, no more digits than the
facets allow, and never more than 18, and keeps to every bound. -/
structure Fits (facets : Facets) (scale : Nat) (n : Int) : Prop where
  inRange : InRange n
  digits : ∀ d ∈ facets.totalDigits, n.natAbs < 10 ^ min d 18
  bounds : facets.WithinBounds (n / 10 ^ scale)

theorem OneBoundEach.suits_iff_fits (hone : facets.OneBoundEach) {scale : Nat}
    {n : Int} : facets.Suits scale n ↔ facets.Fits scale n := by
  constructor
  · intro hn
    exact ⟨hn.inRange, admits_digitBounds_iff.mp hn.digits,
      hone.withinBounds_iff.mpr hn.limits⟩
  · intro hn
    exact ⟨hn.inRange, admits_digitBounds_iff.mpr hn.digits,
      hone.withinBounds_iff.mp hn.bounds⟩

/-- What the facets ask of a decimal number. -/
structure AllowsDecimal (facets : Facets) (x : ℚ) : Prop where
  bounds : facets.WithinBounds x
  totalDigits : ∀ d ∈ facets.totalDigits, Decimal.HasDigits d x
  fractionDigits : ∀ d ∈ facets.fractionDigits, Decimal.HasFraction d x

/-- The number of fraction digits that decimals are drawn with. -/
def scale (facets : Facets) : Nat :=
  min (match facets.totalDigits with
    | some total => min (facets.fractionDigits.getD Value.usualScale) total
    | Option.none => facets.fractionDigits.getD Value.usualScale)
    Value.greatestScale

/-- As many digits as the facets ask for behind the point, or two, but never
more than there may be at all, and never more than 18. -/
theorem scale_eq (facets : Facets) :
    facets.scale = min (facets.fractionDigits.getD 2)
      (min (facets.totalDigits.getD 18) 18) := by
  unfold scale Value.usualScale Value.greatestScale
  cases facets.totalDigits with
  | none => rfl
  | some total => exact Nat.min_assoc _ _ _

theorem scale_le_totalDigits {d : Nat} (hd : d ∈ facets.totalDigits) :
    facets.scale ≤ d := by
  rw [scale, Option.mem_def.mp hd]
  exact Nat.le_trans (Nat.min_le_left _ _) (Nat.min_le_right _ _)

theorem scale_le_fractionDigits {d : Nat} (hd : d ∈ facets.fractionDigits) :
    facets.scale ≤ d := by
  rw [scale, Option.mem_def.mp hd]
  refine Nat.le_trans (Nat.min_le_left _ _) ?_
  cases facets.totalDigits with
  | none => exact Nat.le_refl d
  | some total => exact Nat.min_le_left d total

theorem Fits.allowsDecimal {n : Int} (hn : facets.Fits facets.scale n) :
    facets.AllowsDecimal (n / 10 ^ facets.scale) where
  bounds := hn.bounds
  totalDigits d hd := by
    refine ⟨n, facets.scale, scale_le_totalDigits hd, ?_, rfl⟩
    exact Nat.lt_of_lt_of_le (hn.digits d hd)
      (Nat.pow_le_pow_right (by decide) (Nat.min_le_left d 18))
  fractionDigits d hd :=
    Decimal.hasFraction_of_le (scale_le_fractionDigits hd)

end Facets

namespace Value

variable {type : SimpleType} {node : String} {settings : Settings}
  {files : Files}

/-- For whole numbers the preferred range is what the settings say, as long as
it has a number of 64 bits. -/
theorem onGrid_zero_admits_iff {numbers : Bounds} {v z : Int}
    (hv : numbers.Admits v) (hvrange : InRange v) (hrange : InRange z) :
    (onGrid numbers 0).Admits z ↔ numbers.Admits z := by
  unfold InRange Number.least Number.greatest at hvrange hrange
  rcases numbers with ⟨low, high⟩
  cases low <;> cases high <;>
    simp [Bounds.Admits, onGrid, Number.tenTo, Number.clamp, Number.least,
      Number.greatest] at hv ⊢ <;> omega

theorem decimal_eq (facets : Facets) (numbers : Bounds) (s : Stream) :
    (decimal facets numbers s).1 =
      String.ofList (Scaled.write (drawn facets numbers facets.scale s)
        facets.scale) := by
  unfold decimal Facets.scale
  cases facets.totalDigits <;> exact number_eq facets numbers _ s

/-- Where a number of 64 bits fits the facets of a type of whole numbers, the
value of a node is a whole number that keeps to them, and to the settings if one
that fits the facets does. -/
theorem integer_fits [Regex.Package] (hkind : type.kind = .integer)
    (hmembers : type.facets.enumeration = [])
    (hpatterns : type.facets.patterns = [])
    (hone : type.facets.OneBoundEach)
    (hrules : ∀ rule ∈ settings.rules, rule.appliesTo node = false)
    (hsome : ∃ v, type.facets.Fits 0 v) (s : Session) :
    ∃ text z t,
      outcome (ofType? (some type) node settings files) s =
        (.ok (some text), t) ∧
      Decimal.Literal text.toList z ∧
      type.facets.WithinBounds z ∧
      (∀ d ∈ type.facets.totalDigits, z.natAbs < 10 ^ d ∧
        (0 < d → text.toList.countP Char.isDigit ≤ d)) ∧
      ((∃ v, type.facets.Fits 0 v ∧ settings.numbers.Admits v) →
        settings.numbers.Admits z) := by
  obtain ⟨v, hv⟩ := hsome
  obtain ⟨hdrawn, hpreferred⟩ := drawn_suits (hone.suits_iff_fits.mpr hv)
    settings.numbers s.stream
  rw [hone.suits_iff_fits] at hdrawn
  have hofKind : ofKind type node settings.numbers =
      Step.draw (whole type.facets settings.numbers) := by
    simp only [ofKind, hkind]
  refine ⟨_, drawn type.facets settings.numbers 0 s.stream, _,
    outcome_ofType?_of_draw hrules hmembers hpatterns hofKind s, ?_, ?_, ?_, ?_⟩
  · rw [whole_eq]
    exact Decimal.literal_toList _
  · simpa using hdrawn.bounds
  · intro d hd
    have hdigits := Nat.lt_of_lt_of_le (hdrawn.digits d hd)
      (Nat.pow_le_pow_right (by decide) (Nat.min_le_left d 18))
    refine ⟨hdigits, fun hpos => ?_⟩
    rw [whole_eq, String.toList_ofList]
    exact Decimal.countP_isDigit_ofInt_le hpos hdigits
  · rintro ⟨u, hu, hadmits⟩
    have hgrid {z : Int} := @onGrid_zero_admits_iff _ u z hadmits hu.inRange
    exact (hgrid hdrawn.inRange).mp
      (hpreferred ⟨u, hone.suits_iff_fits.mpr hu,
        (hgrid hu.inRange).mpr hadmits⟩)

/-- The value of a node of decimals is a multiple of 64 bits, written with as
many fraction digits as the facets ask for, or two, within what all digits and
18 allow.  Where such a decimal keeps to the facets, they allow this one. -/
theorem decimal_fits [Regex.Package] (hkind : type.kind = .decimal)
    (hmembers : type.facets.enumeration = [])
    (hpatterns : type.facets.patterns = [])
    (hone : type.facets.OneBoundEach)
    (hrules : ∀ rule ∈ settings.rules, rule.appliesTo node = false)
    (s : Session) :
    ∃ scale text n t,
      scale = min (type.facets.fractionDigits.getD 2)
        (min (type.facets.totalDigits.getD 18) 18) ∧
      outcome (ofType? (some type) node settings files) s =
        (.ok (some text), t) ∧
      InRange n ∧ text = String.ofList (Scaled.write n scale) ∧
      Decimal.FractionDigits scale text.toList ∧
      Decimal.Expresses text (n / 10 ^ scale) ∧
      ((∃ m, type.facets.Fits scale m) →
        type.facets.AllowsDecimal (n / 10 ^ scale)) := by
  have hofKind : ofKind type node settings.numbers =
      Step.draw (decimal type.facets settings.numbers) := by
    simp only [ofKind, hkind]
  refine ⟨type.facets.scale, _,
    drawn type.facets settings.numbers type.facets.scale s.stream, _,
    type.facets.scale_eq,
    outcome_ofType?_of_draw hrules hmembers hpatterns hofKind s,
    inRange_drawn _ _ _ _, decimal_eq _ _ _, ?_, ?_, ?_⟩
  · rw [decimal_eq, String.toList_ofList]
    exact Scaled.fractionDigits_write _ _
  · rw [decimal_eq]
    exact Scaled.expresses_write _ _
  · rintro ⟨m, hm⟩
    have hdrawn := (drawn_suits (hone.suits_iff_fits.mpr hm)
      settings.numbers s.stream).1
    exact (hone.suits_iff_fits.mp hdrawn).allowsDecimal

namespace FacetWitness

/-- At most three digits, not below -1.5, and below a number that is too long to
be read. -/
def quantity : SimpleType where
  kind := .integer
  facets :=
    { minInclusive := some "-1.5"
      maxExclusive := some "1000000000000000000000000000000000000000000"
      totalDigits := some 3 }

theorem quantity_fits {z : Int} (hleast : -1 ≤ z) (hmost : z ≤ 999) :
    quantity.facets.Fits 0 z := by
  have hlower : Decimal.Expresses "-1.5" ((-15 : Int) / 10 ^ 1) :=
    Scaled.expresses_of_written (by decide)
  have hupper : Decimal.Expresses "1000000000000000000000000000000000000000000"
      ((10 ^ 42 : Int) / 10 ^ 0) := Scaled.expresses_of_written (by decide)
  have hfrom : (-1 : ℚ) ≤ z := by exact_mod_cast hleast
  have hupTo : (z : ℚ) ≤ 999 := by exact_mod_cast hmost
  refine ⟨?_, ?_, ?_, nofun, nofun, ?_⟩
  · unfold InRange Number.least Number.greatest
    omega
  · rintro d ⟨⟩
    have hthousand : 10 ^ min 3 18 = 1000 := by decide
    omega
  · rintro text ⟨⟩
    refine ⟨_, hlower, ?_⟩
    norm_num
    linarith
  · rintro text ⟨⟩
    refine ⟨_, hupper, ?_⟩
    norm_num
    linarith

/-- The settings would rather have quantities of two digits. -/
def twoDigits : Settings := { numbers := ⟨some 10, some 99⟩ }

/-- A quantity of three digits at most, and by the settings of two. -/
theorem quantity_drawn :
    (∃ v, quantity.facets.Fits 0 v ∧ twoDigits.numbers.Admits v) ∧
      ∃ text z t, outcome (ofType? (some quantity) "quantity" twoDigits {})
          (Session.ofSeed 7) = (.ok (some text), t) ∧
        Decimal.Literal text.toList z ∧ quantity.facets.WithinBounds z ∧
        z.natAbs < 10 ^ 3 ∧ 10 ≤ z ∧ z ≤ 99 := by
  have hforty : ∃ v, quantity.facets.Fits 0 v ∧ twoDigits.numbers.Admits v :=
    ⟨40, quantity_fits (by decide) (by decide), by decide⟩
  obtain ⟨text, z, t, hrun, hliteral, hbounds, hdigits, hpreferred⟩ :=
    @integer_fits quantity "quantity" twoDigits {} _ rfl rfl rfl
      ⟨.inr rfl, .inl rfl⟩ nofun (hforty.imp fun _ hv => hv.1)
      (Session.ofSeed 7)
  have hadmits := hpreferred hforty
  exact ⟨hforty, text, z, t, hrun, hliteral, hbounds, (hdigits 3 rfl).1,
    hadmits.1 10 rfl, hadmits.2 99 rfl⟩

/-- Prices of at most five digits, two of them behind the point. -/
def price : SimpleType where
  kind := .decimal
  facets :=
    { minExclusive := some "0.5"
      maxInclusive := some "1.25"
      totalDigits := some 5
      fractionDigits := some 2 }

theorem price_fits : price.facets.Fits 2 75 := by
  have hlower : Decimal.Expresses "0.5" ((5 : Int) / 10 ^ 1) :=
    Scaled.expresses_of_written (by decide)
  have hupper : Decimal.Expresses "1.25" ((125 : Int) / 10 ^ 2) :=
    Scaled.expresses_of_written (by decide)
  refine ⟨by decide, ?_, nofun, ?_, ?_, nofun⟩
  · rintro d ⟨⟩
    decide
  · rintro text ⟨⟩
    exact ⟨_, hlower, by norm_num⟩
  · rintro text ⟨⟩
    exact ⟨_, hupper, by norm_num⟩

theorem price_drawn :
    ∃ text n t, outcome (ofType? (some price) "price" {} {})
        (Session.ofSeed 7) = (.ok (some text), t) ∧
      InRange n ∧ text = String.ofList (Scaled.write n 2) ∧
      Decimal.FractionDigits 2 text.toList ∧
      price.facets.Fits 2 75 ∧ price.facets.AllowsDecimal (n / 10 ^ 2) := by
  obtain ⟨scale, text, n, t, hscale, hrun, hrange, hwritten, hdigits, -,
      hallowed⟩ :=
    @decimal_fits price "price" {} {} _ rfl rfl rfl ⟨.inl rfl, .inr rfl⟩ nofun
      (Session.ofSeed 7)
  obtain rfl : scale = 2 := hscale
  exact ⟨text, n, t, hrun, hrange, hwritten, hdigits, price_fits,
    hallowed ⟨75, price_fits⟩⟩

/-- The facets that only one number keeps to. -/
def exactly (number : String) (total fraction : Option Nat) : Facets where
  minInclusive := some number
  maxInclusive := some number
  totalDigits := total
  fractionDigits := fraction

theorem exactly_withinBounds_iff {number : String} {total fraction : Option Nat}
    {x y : ℚ} (hx : Decimal.Expresses number x) :
    (exactly number total fraction).WithinBounds y ↔ y = x := by
  constructor
  · intro hy
    have hleast := hx.exists_iff.mp (hy.minInclusive number rfl)
    have hmost := hx.exists_iff.mp (hy.maxInclusive number rfl)
    exact le_antisymm hmost hleast
  · rintro rfl
    refine ⟨?_, nofun, ?_, nofun⟩ <;> rintro text ⟨⟩
    · exact ⟨y, hx, le_refl y⟩
    · exact ⟨y, hx, le_refl y⟩

/-- The text of a node of decimals with the facets, drawn from the seed 1. -/
def decimalOf (facets : Facets) : Except ValueError (Option String) :=
  (outcome (ofType? (some ⟨.decimal, facets⟩) "Value" {} {})
    (Session.ofSeed 1)).1

/-- The facets allow the number, and yet a text is drawn that they do not
allow. -/
structure Missed (facets : Facets) (x : ℚ) (text : String) : Prop where
  allowed : facets.AllowsDecimal x
  drawn : decimalOf facets = .ok (some text)
  refused : ¬ ∃ y, Decimal.Expresses text y ∧ facets.AllowsDecimal y

theorem missed_exactly {number text : String} {total fraction : Option Nat}
    {x y : ℚ} (hx : Decimal.Expresses number x)
    (htotal : ∀ d ∈ total, Decimal.HasDigits d x)
    (hfraction : ∀ d ∈ fraction, Decimal.HasFraction d x)
    (hdrawn : decimalOf (exactly number total fraction) = .ok (some text))
    (hy : Decimal.Expresses text y) (hne : y ≠ x) :
    Missed (exactly number total fraction) x text := by
  refine ⟨⟨(exactly_withinBounds_iff hx).mpr rfl, htotal, hfraction⟩, hdrawn,
    ?_⟩
  rintro ⟨z, hz, hallowed⟩
  rw [hz.unique hy] at hallowed
  exact hne ((exactly_withinBounds_iff hx).mp hallowed.bounds)

/-- Numbers that no decimal reaches as it is drawn: a number of three fraction
digits where there are two, a number of two digits that leaves none for the
fraction, one that has more than 64 bits at its scale, and one of 19 digits. -/
theorem decimals_missed :
    Missed (exactly "0.001" none none) ((1 : Int) / 10 ^ 3) "0.00" ∧
      Missed (exactly "50" (some 2) none) ((50 : Int) / 10 ^ 0) "25.08" ∧
      Missed (exactly "100" none (some 18)) ((100 : Int) / 10 ^ 0)
        "9.223372036854775807" ∧
      Missed (exactly "1000000000000000000" (some 19) (some 0))
        ((1000000000000000000 : Int) / 10 ^ 0) "999999999999999999" := by
  refine ⟨?_, ?_, ?_, ?_⟩
  · exact missed_exactly (y := (0 : Int) / 10 ^ 2)
      (Scaled.expresses_of_written (by decide)) nofun nofun (by decide +kernel)
      (Scaled.expresses_of_written (by decide)) (by norm_num)
  · refine missed_exactly (y := (2508 : Int) / 10 ^ 2)
      (Scaled.expresses_of_written (by decide)) ?_ nofun (by decide +kernel)
      (Scaled.expresses_of_written (by decide)) (by norm_num)
    rintro d ⟨⟩
    exact ⟨50, 0, by decide, by decide, rfl⟩
  · refine missed_exactly (y := (9223372036854775807 : Int) / 10 ^ 18)
      (Scaled.expresses_of_written (by decide)) nofun ?_ (by decide +kernel)
      (Scaled.expresses_of_written (by decide)) (by norm_num)
    exact fun d _ => Decimal.hasFraction_of_le (Nat.zero_le d)
  · refine missed_exactly (y := (999999999999999999 : Int) / 10 ^ 0)
      (Scaled.expresses_of_written (by decide)) ?_ ?_ (by decide +kernel)
      (Scaled.expresses_of_written (by decide)) (by norm_num)
    · rintro d ⟨⟩
      exact ⟨1000000000000000000, 0, by decide, by decide, rfl⟩
    · exact fun d _ => Decimal.hasFraction_of_le (Nat.zero_le d)

end FacetWitness

end Value

end Specimen
