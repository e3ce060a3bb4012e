/-
The digits of whole numbers.  Merging keeps the bounds of the digits whole
unless both sides of the schema lie beyond one of them; then one end of the
range stays out there.  Every number of the range is drawn from some state, so
the values of a type keep to its digits exactly where its bounds leave room for
such a number.
-/
import Specimen.Proofs.DrawnNumbers
import Specimen.Proofs.NumberFacets

namespace Specimen

open Number (InRange)

namespace Decimal

/-- A whole number is written with no more than some digits exactly if it has no
more of them. -/
theorem countP_isDigit_ofInt_le_iff {n : Int} {digits : Nat}
    (hpos : 0 < digits) :
    (ofInt n).countP Char.isDigit ≤ digits ↔ n.natAbs < 10 ^ digits := by
  refine ⟨fun hcount => ?_, countP_isDigit_ofInt_le hpos⟩
  have hall : (Decimal.digits n.natAbs).countP Char.isDigit =
      (Decimal.digits n.natAbs).length :=
    List.countP_eq_length.mpr (isNumeral_iff.mp (isNumeral_digits n.natAbs)).2
  have hlength : (Decimal.digits n.natAbs).length ≤ digits := by
    rw [← hall]
    refine Nat.le_trans ?_ hcount
    unfold ofInt padded
    by_cases hneg : n < 0
    · rw [if_pos hneg, zeroPadded_of_le_one (Nat.zero_le _)]
      exact (List.sublist_cons_self _ _).countP_le
    · rw [if_neg hneg, zeroPadded_of_le_one (Nat.le_refl 1)]
  exact (Nat.length_toDigits_le_iff (by decide) hpos).mp hlength

end Decimal

namespace Bounds

/-- Where both sides are there, some number of at most the given magnitude lies
between them, whichever of them is the greater. -/
def Allows (schema : Bounds) (limit : Nat) : Prop :=
  ∀ low ∈ schema.lower, ∀ high ∈ schema.upper,
    ∃ z ∈ Set.uIcc low high, z.natAbs ≤ limit

/-- The numbers of at most the given magnitude. -/
def upTo (limit : Nat) : Bounds := ⟨some (-limit), some limit⟩

section Magnitude

variable (schema : Bounds) (limit : Nat)

/-- The lower end of what the schema leaves of the numbers up to a magnitude. -/
def floor : Int :=
  max (min (schema.lower.getD (-limit)) (schema.upper.getD limit)) (-limit)

def ceiling : Int :=
  min (max (schema.lower.getD (-limit)) (schema.upper.getD limit)) limit

theorem allowed_upTo : allowed (upTo limit) schema =
    ⟨some (schema.floor limit), some (schema.ceiling limit)⟩ := by
  have hasked : asked (upTo limit) schema = ⟨some (schema.lower.getD (-limit)),
      some (schema.upper.getD limit)⟩ := by
    rcases schema with ⟨_ | low, _ | high⟩ <;> rfl
  rw [allowed, hasked, ordered_eq]
  rfl

theorem floor_le_ceiling_iff :
    schema.floor limit ≤ schema.ceiling limit ↔ schema.Allows limit := by
  rcases schema with ⟨_ | low, _ | high⟩
  · simp [Allows, floor, ceiling]
  · simp [Allows, floor, ceiling]
  · simp [Allows, floor, ceiling]
  · simp only [Allows, floor, ceiling, Option.getD_some, Option.mem_def,
      Option.some.injEq, forall_eq', Set.mem_uIcc]
    constructor
    · intro hle
      exact ⟨max (min low high) (-limit), by omega, by omega⟩
    · rintro ⟨z, hz, hlimit⟩
      omega

end Magnitude

/-- A wish moves the lower end of a range only as far as the range goes; a
reversed range it leaves alone. -/
theorem exists_prefer (low high : Int) (side : Option Int) :
    ∃ a, (Bounds.mk (some low) (some high)).prefer side = ⟨some a, some high⟩ ∧
      (low ≤ high → low ≤ a ∧ a ≤ high) ∧ (high < low → a = low) := by
  cases side with
  | none => exact ⟨low, rfl, by omega, by omega⟩
  | some n =>
      by_cases hn : n ≤ high
      · exact ⟨max low n, by simp [prefer, raise, hn], by omega, by omega⟩
      · exact ⟨low, by simp [prefer, hn], by omega, by omega⟩

theorem exists_preferAtMost (low high : Int) (side : Option Int) :
    ∃ b, (Bounds.mk (some low) (some high)).preferAtMost side =
        ⟨some low, some b⟩ ∧
      (low ≤ high → low ≤ b ∧ b ≤ high) ∧ (high < low → b = high) := by
  cases side with
  | none => exact ⟨high, rfl, by omega, by omega⟩
  | some n =>
      by_cases hn : low ≤ n
      · exact ⟨min high n, by simp [preferAtMost, cap, hn], by omega, by omega⟩
      · exact ⟨high, by simp [preferAtMost, hn], by omega, by omega⟩

/-- The ends of a merged range keep to a magnitude exactly where the schema
allows it. -/
theorem exists_merge_upTo (schema configured : Bounds) (limit : Nat) :
    ∃ low high, merge (upTo limit) schema configured = ⟨some low, some high⟩ ∧
      (low.natAbs ≤ limit ∧ high.natAbs ≤ limit ↔ schema.Allows limit) := by
  obtain ⟨low, hprefer, hlow, hsame⟩ := exists_prefer (schema.floor limit)
    (schema.ceiling limit) configured.lower
  obtain ⟨high, hpreferAtMost, hhigh, hsame'⟩ := exists_preferAtMost low
    (schema.ceiling limit) configured.upper
  refine ⟨low, high, ?_, ?_⟩
  · rw [merge_eq, allowed_upTo, hprefer, hpreferAtMost]
  · rw [← floor_le_ceiling_iff]
    unfold floor ceiling at *
    omega

end Bounds

namespace Value

variable {type : SimpleType} {node : String} {settings : Settings}
  {files : Files} {facets : Facets} {d : Nat}

theorem ofDigits_eq (d : Nat) :
    Bounds.ofDigits d = Bounds.upTo (10 ^ min d 18 - 1) := by
  have hpos : 0 < 10 ^ min d 18 := Nat.pow_pos (by decide)
  have htenTo : Number.tenTo (min d 18) = 10 ^ min d 18 := rfl
  simp only [Bounds.ofDigits, Bounds.upTo, htenTo, Bounds.mk.injEq,
    Option.some.injEq]
  omega

/-- Past 18 digits every number of 64 bits has room. -/
theorem natAbs_lt_of_inRange {z : Int} (hz : InRange z) (hd : 19 ≤ d) :
    z.natAbs < 10 ^ d := by
  have hpow : 10 ^ 19 ≤ 10 ^ d := Nat.pow_le_pow_right (by decide) hd
  unfold InRange Number.least Number.greatest at hz
  omega

/-- The ends of the range that whole numbers of some digits are drawn from have
64 bits, and no more than those digits exactly where the bounds of the facets
allow it. -/
theorem exists_numberRange (hd : d ∈ facets.totalDigits) (numbers : Bounds) :
    ∃ low high, numberRange facets numbers 0 true = (low, high) ∧
      InRange low ∧ InRange high ∧
      (low.natAbs < 10 ^ d ∧ high.natAbs < 10 ^ d ↔
        (facetBounds facets 0).Allows (10 ^ d - 1)) := by
  have hpos : 0 < 10 ^ d := Nat.pow_pos (by decide)
  have hdigits : digitBounds facets = Bounds.upTo (10 ^ min d 18 - 1) := by
    rw [← ofDigits_eq, digitBounds, Option.mem_def.mp hd]
  obtain ⟨low, high, hmerge, hallows⟩ := Bounds.exists_merge_upTo
    (facetBounds facets 0) (onGrid numbers 0) (10 ^ min d 18 - 1)
  rw [← hdigits] at hmerge
  have hfacets := ends_facetBounds facets 0
  have hends := (ends_digitBounds facets).merge hfacets (ends_onGrid numbers 0)
  rw [hmerge] at hends
  have hlow : InRange low := hends.1 low rfl
  have hhigh : InRange high := hends.2 high rfl
  refine ⟨low, high, by rw [numberRange_eq, hmerge]; rfl, hlow, hhigh, ?_⟩
  rcases Nat.lt_or_ge 18 d with hmany | hfew
  · refine iff_of_true ⟨natAbs_lt_of_inRange hlow hmany,
      natAbs_lt_of_inRange hhigh hmany⟩ ?_
    intro least hleast greatest _
    exact ⟨least, Set.left_mem_uIcc,
      Nat.le_sub_one_of_lt
        (natAbs_lt_of_inRange (hfacets.1 least hleast) hmany)⟩
  · rw [Nat.min_eq_left hfew] at hallows
    rw [← hallows]
    omega

/-- The values of a type of whole numbers have no more digits than its facets
give it exactly where the bounds of the facets, if both are there, have a number
with no more digits between them. -/
theorem integer_digits_iff [Regex.Package] (hkind : type.kind = .integer)
    (hmembers : type.facets.enumeration = [])
    (hpatterns : type.facets.patterns = [])
    (hrules : ∀ rule ∈ settings.rules, rule.appliesTo node = false)
    (hd : d ∈ type.facets.totalDigits) (hpos : 0 < d) :
    (∀ s, ∃ text t,
      outcome (ofType? (some type) node settings files) s =
        (.ok (some text), t) ∧ text.toList.countP Char.isDigit ≤ d) ↔
      (facetBounds type.facets 0).Allows (10 ^ d - 1) := by
  obtain ⟨low, high, hrange, hlow, hhigh, hallows⟩ :=
    exists_numberRange hd settings.numbers
  have hdrawn : Set.range (drawn type.facets settings.numbers 0) =
      Set.uIcc low high := by
    rw [← Draw.range_integer hlow hhigh]
    congr 1
    funext s
    simp only [drawn, hrange]
  have hofKind : ofKind type node settings.numbers =
      Step.draw (whole type.facets settings.numbers) := by
    simp only [ofKind, hkind]
  have hvalue := @outcome_ofType?_of_draw type node settings files _ hrules
    hmembers hpatterns _ hofKind
  have hdigits (s : Stream) :
      (whole type.facets settings.numbers s).1.toList.countP Char.isDigit ≤ d ↔
        (drawn type.facets settings.numbers 0 s).natAbs < 10 ^ d := by
    rw [whole_eq, String.toList_ofList,
      Decimal.countP_isDigit_ofInt_le_iff hpos]
  rw [← hallows]
  constructor
  · intro hall
    have hend {z : Int} (hz : z ∈ Set.uIcc low high) : z.natAbs < 10 ^ d := by
      obtain ⟨stream, rfl⟩ := hdrawn ▸ hz
      obtain ⟨text, t, hrun, hcount⟩ := hall { Session.ofSeed 0 with stream }
      rw [hvalue] at hrun
      cases hrun
      exact (hdigits stream).mp hcount
    exact ⟨hend Set.left_mem_uIcc, hend Set.right_mem_uIcc⟩
  · rintro ⟨hlowDigits, hhighDigits⟩ s
    refine ⟨_, _, hvalue s, (hdigits s.stream).mpr ?_⟩
    have hmem : drawn type.facets settings.numbers 0 s.stream ∈
        Set.uIcc low high := hdrawn ▸ Set.mem_range_self s.stream
    rw [Set.mem_uIcc] at hmem
    omega

namespace DigitWitness

/-- Whole numbers of two digits that are asked for from some number to another.
-/
def twoDigits (least greatest : String) : SimpleType where
  kind := .integer
  facets :=
    { minInclusive := some least
      maxInclusive := some greatest
      totalDigits := some 2 }

/-- Between -1000 and 5 there are numbers of two digits, and so every number
drawn has no more. -/
theorem shortfall_digits :
    (facetBounds (twoDigits "-1000" "5").facets 0).Allows (10 ^ 2 - 1) ∧
      ∀ s, ∃ text t,
        outcome (ofType? (some (twoDigits "-1000" "5")) "shortfall" {} {}) s =
          (.ok (some text), t) ∧ text.toList.countP Char.isDigit ≤ 2 := by
  have hallows : (facetBounds (twoDigits "-1000" "5").facets 0).Allows
      (10 ^ 2 - 1) := by
    have hbounds : facetBounds (twoDigits "-1000" "5").facets 0 =
        ⟨some (-1000), some 5⟩ := by decide
    rw [hbounds]
    rintro low ⟨⟩ high ⟨⟩
    exact ⟨5, Set.right_mem_uIcc, by decide⟩
  exact ⟨hallows, (@integer_digits_iff (twoDigits "-1000" "5") "shortfall" {} {}
    2 _ rfl rfl rfl nofun rfl (by decide)).mpr hallows⟩

/-- Two digits are too few for the number 1000, and yet a number of three digits
is drawn. -/
theorem thousand_digits :
    (outcome (ofType? (some (twoDigits "1000" "1000")) "Value" {} {})
        (Session.ofSeed 1)).1 = .ok (some "542") ∧
      2 < "542".toList.countP Char.isDigit := by
  decide +kernel

end DigitWitness

end Value

end Specimen
