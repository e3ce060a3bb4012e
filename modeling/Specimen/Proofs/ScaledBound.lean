/-
Bounds on the grid of a scale.  A decimal that is cut off at a scale lies on a
multiple or between two neighbours, and the bound that is taken from it is the
outermost multiple on its inner side.  A bound that cannot be read, or that is
brought into range, admits the same 64-bit numbers, as long as there are any.
-/
import Specimen.Proofs.DecimalLiteral

namespace Specimen.Scaled

open Decimal
open Number (InRange)

/-- The number lies on the inner side of a bound. -/
def Side.Keeps : Side → (bound z : Int) → Prop
  | .lower, bound, z => bound ≤ z
  | .upper, bound, z => z ≤ bound

/-- The number `y` keeps to a bound `x`, itself included or not. -/
def Side.Meets : Side → (exclusive : Bool) → (x y : ℚ) → Prop
  | .lower, false, x, y => x ≤ y
  | .lower, true, x, y => x < y
  | .upper, false, x, y => y ≤ x
  | .upper, true, x, y => y < x

/-- Keeping to a bound is the same on the grid. -/
theorem Side.meets_div_iff {side : Side} {exclusive : Bool} {x y : ℚ}
    (scale : Nat) :
    side.Meets exclusive x (y / 10 ^ scale) ↔
      side.Meets exclusive (x * 10 ^ scale) y := by
  have hpos : (0 : ℚ) < 10 ^ scale := by positivity
  cases side <;> cases exclusive
  · exact le_div_iff₀ hpos
  · exact lt_div_iff₀ hpos
  · exact div_le_iff₀ hpos
  · exact div_lt_iff₀ hpos

/-- The whole number that a whole bound leaves as the outermost one: the bound
itself, or its inner neighbour if it is excluded. -/
def inward (exclusive : Bool) : Side → Int → Int
  | .lower, n => if exclusive then n + 1 else n
  | .upper, n => if exclusive then n - 1 else n

theorem keeps_inward_iff {side : Side} {exclusive : Bool} {n z : Int} :
    side.Keeps (inward exclusive side n) z ↔ side.Meets exclusive n z := by
  cases side <;> cases exclusive <;>
    simp only [Side.Keeps, Side.Meets, inward, if_true, if_false,
      Bool.false_eq_true, Int.cast_le, Int.cast_lt] <;> omega

namespace Reading

/-- The multiple below a number that is not one itself. -/
def floor (r : Reading) : Int :=
  if r.negative then r.truncated - 1 else r.truncated

/-- The reading tells where the number lies on the grid. -/
structure Cuts (r : Reading) (x : ℚ) : Prop where
  exact : r.exact = true → x = r.truncated
  inexact : r.exact = false → r.floor < x ∧ x < r.floor + 1

/-- The outermost multiple that a bound with this reading admits. -/
def outermost (r : Reading) (exclusive : Bool) (side : Side) : Int :=
  if r.exact then inward exclusive side r.truncated
  else
    match side with
    | .lower => r.floor + 1
    | .upper => r.floor

theorem Cuts.keeps_outermost_iff {r : Reading} {x : ℚ} (hr : r.Cuts x)
    (exclusive : Bool) (side : Side) (n : Int) :
    side.Keeps (r.outermost exclusive side) n ↔ side.Meets exclusive x n := by
  cases hexact : r.exact with
  | true =>
      rw [hr.exact hexact, outermost.eq_def, if_pos hexact]
      exact keeps_inward_iff
  | false =>
      obtain ⟨hbelow, habove⟩ := hr.inexact hexact
      have hfrom : r.floor + 1 ≤ n ↔ x < n := by
        constructor
        · intro hn
          have hcast : (r.floor : ℚ) + 1 ≤ n := by exact_mod_cast hn
          linarith
        · intro hn
          have hcast : (r.floor : ℚ) < n := by linarith
          exact_mod_cast hcast
      have hupTo : n ≤ r.floor ↔ n < x := by
        constructor
        · intro hn
          have hcast : (n : ℚ) ≤ r.floor := by exact_mod_cast hn
          linarith
        · intro hn
          have hcast : (n : ℚ) < r.floor + 1 := by linarith
          exact Int.lt_add_one_iff.mp (by exact_mod_cast hcast)
      have hne : x ≠ n := by
        rintro rfl
        have hboth := hfrom.not.mpr (lt_irrefl _)
        have hneither := hupTo.not.mpr (lt_irrefl _)
        omega
      cases side <;> cases exclusive <;>
        simp only [Side.Keeps, Side.Meets, outermost, hexact,
          Bool.false_eq_true, if_false, hfrom, hupTo]
      · exact ⟨le_of_lt, fun hle => lt_of_le_of_ne hle hne⟩
      · exact ⟨le_of_lt, fun hle => lt_of_le_of_ne hle hne.symm⟩

end Reading

theorem bound_eq (text : String) (scale : Nat) (exclusive : Bool)
    (side : Side) :
    bound text scale exclusive side =
      (read (Text.trim text.toList) scale).map fun r =>
        Number.clamp (r.outermost exclusive side) := by
  unfold bound
  congr 1
  funext r
  rcases r with ⟨truncated, _ | _, _ | _⟩ <;> cases exclusive <;> cases side <;>
    simp [Reading.outermost, Reading.floor, inward]

section Reading

/-- What reading may make of a number: a reading that tells where it lies, or
none if it is too great. -/
def Reads (result : Option Reading) (x : ℚ) : Prop :=
  match result with
  | none => (limit : ℚ) < |x|
  | some r => r.Cuts x

/-- A number is the digits that a scale keeps and a remainder of less than one
unit. -/
theorem kept_add_dropped (s t : List Char) (scale : Nat) :
    ((value s : ℚ) + value t / 10 ^ t.length) * 10 ^ scale =
      (value (s ++ t.take scale) *
          Number.tenTo (scale - (t.take scale).length) : Nat) +
        value (t.drop scale) / 10 ^ (t.drop scale).length := by
  have hsplit : value t = 10 ^ (t.drop scale).length * value (t.take scale) +
      value (t.drop scale) := by
    rw [← value_append, List.take_append_drop]
  have hlength : t.length = (t.take scale).length + (t.drop scale).length := by
    rw [← List.length_append, List.take_append_drop]
  rw [hsplit, hlength, value_append]
  push_cast [cast_tenTo]
  rcases Nat.le_total t.length scale with hshort | hlong
  · have hnone : t.drop scale = [] := List.drop_eq_nil_of_le hshort
    have hall : t.take scale = t := List.take_of_length_le hshort
    have hscale : (10 : ℚ) ^ scale =
        10 ^ t.length * 10 ^ (scale - t.length) := by
      rw [← pow_add, Nat.add_sub_cancel' hshort]
    rw [hnone, hall, hscale]
    simp only [value, Nat.ofDigitChars_nil, List.length_nil, pow_zero]
    field_simp
    ring
  · have hkept : (t.take scale).length = scale := by simpa using hlong
    rw [hkept, Nat.sub_self, pow_add]
    field_simp
    ring

theorem readDigits_eq {s : List Char} (negative : Bool) (scale : Nat)
    (hnumeral : isNumeral ((parts s).1 ++ (parts s).2)) :
    let kept := (parts s).2.take scale
    let magnitude :=
      value ((parts s).1 ++ kept) * Number.tenTo (scale - kept.length)
    let exact := ((parts s).2.drop scale).all (· == '0')
    readDigits negative s scale =
      if magnitude > limit then none
      else some
        { truncated := if negative then -(magnitude : Int) else magnitude
          exact
          negative := negative && !(exact && magnitude == 0) } := by
  obtain ⟨hne, hdigits⟩ := isNumeral_iff.mp hnumeral
  have hsome : ((parts s).1.isEmpty && (parts s).2.isEmpty) = false := by
    simpa [List.append_eq_nil_iff] using hne
  have hall : ((parts s).1.all Char.isDigit && (parts s).2.all Char.isDigit) =
      true := by
    rw [← List.all_append]
    exact List.all_eq_true.mpr hdigits
  unfold readDigits
  change (if ((parts s).1.isEmpty && (parts s).2.isEmpty) = true then _
    else if (!((parts s).1.all Char.isDigit && (parts s).2.all Char.isDigit)) =
      true then _ else _) = _
  rw [hsome, hall]
  rfl

/-- Digits behind a point are worth less than one, and nothing if they are all
zeros. -/
theorem fraction_spec {s : List Char} (hdigits : ∀ c ∈ s, c.isDigit = true) :
    (0 : ℚ) ≤ value s / 10 ^ s.length ∧ (value s : ℚ) / 10 ^ s.length < 1 ∧
      (s.all (· == '0') = true ↔ (value s : ℚ) / 10 ^ s.length = 0) := by
  have hpos : (0 : ℚ) < 10 ^ s.length := by positivity
  have hlt : (value s : ℚ) < 10 ^ s.length := by exact_mod_cast value_lt hdigits
  refine ⟨by positivity, (div_lt_one hpos).mpr hlt, ?_⟩
  have hzero : (value s : ℚ) / 10 ^ s.length = 0 ↔ value s = 0 := by
    rw [div_eq_zero_iff, Nat.cast_eq_zero, or_iff_left hpos.ne']
  rw [hzero, value_eq_zero_iff hdigits]
  simp

/-- A magnitude with a remainder of less than one unit, and a sign. -/
theorem cuts_of_sum {magnitude : Nat} {rest x : ℚ} {exact : Bool}
    (hsum : x = magnitude + rest) (hleast : 0 ≤ rest) (hmost : rest < 1)
    (hexact : exact = true ↔ rest = 0) (negative : Bool) :
    Reading.Cuts
      { truncated := if negative then -(magnitude : Int) else magnitude
        exact
        negative := negative && !(exact && magnitude == 0) }
      (if negative then -x else x) := by
  constructor
  · intro htrue
    rw [hsum, hexact.mp htrue, add_zero]
    cases negative <;> simp
  · intro hfalse
    change exact = false at hfalse
    subst hfalse
    have hpos : 0 < rest :=
      lt_of_le_of_ne hleast fun hzero => by simpa using hexact.mpr hzero.symm
    rw [hsum]
    cases negative with
    | false =>
        simp only [Reading.floor, Bool.false_and, Bool.false_eq_true, if_false,
          Int.cast_natCast]
        constructor <;> linarith
    | true =>
        simp only [Reading.floor, Bool.false_and, Bool.not_false, Bool.and_true,
          if_true, Int.cast_sub, Int.cast_neg, Int.cast_natCast, Int.cast_one]
        constructor <;> linarith

/-- At a scale, a decimal without sign is a magnitude and a remainder of less
than one unit, and reading it keeps the magnitude. -/
theorem readDigits_split {s : List Char} {x : ℚ} (hs : Unsigned s x)
    (scale : Nat) :
    ∃ (magnitude : Nat) (rest : ℚ) (exact : Bool),
      x * 10 ^ scale = magnitude + rest ∧ 0 ≤ rest ∧ rest < 1 ∧
      (exact = true ↔ rest = 0) ∧
      ∀ negative, readDigits negative s scale =
        if magnitude > limit then none
        else some
          { truncated := if negative then -(magnitude : Int) else magnitude
            exact
            negative := negative && !(exact && magnitude == 0) } := by
  obtain ⟨hnumeral, hx⟩ := hs.parts_spec
  have hdropped : ∀ c ∈ (parts s).2.drop scale, c.isDigit = true :=
    fun c hc => (isNumeral_iff.mp hnumeral).2 c
      (List.mem_append_right _ (List.mem_of_mem_drop hc))
  obtain ⟨hleast, hmost, hexact⟩ := fraction_spec hdropped
  exact ⟨_, _, _, hx ▸ kept_add_dropped _ _ scale, hleast, hmost, hexact,
    fun negative => readDigits_eq negative scale hnumeral⟩

/-- Where the kept digits alone are beyond the limit there is no reading, and
the rest only adds to them. -/
theorem readDigits_reads {s : List Char} {x : ℚ} (hs : Unsigned s x)
    (negative : Bool) (scale : Nat) :
    Reads (readDigits negative s scale)
      ((if negative then -x else x) * 10 ^ scale) := by
  obtain ⟨magnitude, rest, exact, hsum, hleast, hmost, hexact, hread⟩ :=
    readDigits_split hs scale
  have hsign : (if negative then -x else x) * 10 ^ scale =
      if negative then -(x * 10 ^ scale) else x * 10 ^ scale := by
    split <;> ring
  rw [hread, hsign]
  split
  case isTrue hgreat =>
    have habs : |if negative then -(x * 10 ^ scale) else x * 10 ^ scale| =
        x * 10 ^ scale := by
      have hnonneg : 0 ≤ x * 10 ^ scale := by
        rw [hsum]
        positivity
      split
      · rw [abs_neg, abs_of_nonneg hnonneg]
      · exact abs_of_nonneg hnonneg
    have hlimit : (limit : ℚ) < magnitude := by exact_mod_cast hgreat
    rw [Reads, habs, hsum]
    linarith
  case isFalse => exact cuts_of_sum hsum hleast hmost hexact negative

/-- Reading a decimal takes off its sign, if there is one, and reads the rest.
-/
theorem read_eq_readDigits {s : List Char} {x : ℚ} (hs : Signed s x) :
    ∃ (negative : Bool) (body : List Char) (y : ℚ), Unsigned body y ∧
      x = (if negative then -y else y) ∧
      ∀ scale, read s scale = readDigits negative body scale := by
  have hsmall : 'e' ∉ s := fun hmem => by
    rcases hs.mem hmem with h | h | h | h <;> contradiction
  have hcapital : 'E' ∉ s := fun hmem => by
    rcases hs.mem hmem with h | h | h | h <;> contradiction
  have hplain : ¬ (s.contains 'e' || s.contains 'E') = true := by
    simp [hsmall, hcapital]
  cases hs with
  | bare hunsigned =>
      refine ⟨false, _, _, hunsigned, rfl, fun scale => ?_⟩
      unfold read
      rw [if_neg hplain]
      split
      · exact absurd (isNumeral_iff.mp hunsigned.parts_spec.1).1
          (by simp [parts, Text.cut])
      · exact absurd hunsigned (not_unsigned_sign (.inr rfl))
      · exact absurd hunsigned (not_unsigned_sign (.inl rfl))
      · rfl
  | plus hunsigned =>
      exact ⟨false, _, _, hunsigned, rfl, fun scale => if_neg hplain⟩
  | minus hunsigned =>
      exact ⟨true, _, _, hunsigned, rfl, fun scale => if_neg hplain⟩

/-- What a decimal is read as at a scale. -/
theorem read_reads {s : List Char} {x : ℚ} (hs : Signed s x) (scale : Nat) :
    Reads (read s scale) (x * 10 ^ scale) := by
  obtain ⟨negative, body, y, hbody, rfl, hread⟩ := read_eq_readDigits hs
  rw [hread]
  exact readDigits_reads hbody negative scale

end Reading

section Bound

variable {side : Side} {exclusive : Bool} {w n : Int}

/-- Bringing a bound into range changes nothing for 64-bit numbers if one of
them keeps to it. -/
theorem Side.keeps_clamp_iff {b : Int} (hw : side.Keeps b w)
    (hwrange : InRange w) (hrange : InRange n) :
    side.Keeps (Number.clamp b) n ↔ side.Keeps b n := by
  unfold InRange Number.least Number.greatest at hwrange hrange
  unfold Number.clamp Number.least Number.greatest
  cases side <;> simp only [Side.Keeps] at hw ⊢ <;> omega

theorem cast_le_limit (hrange : InRange n) :
    -(limit : ℚ) ≤ n ∧ (n : ℚ) ≤ limit := by
  unfold InRange Number.least Number.greatest at hrange
  have hlimits : -(limit : Int) ≤ n ∧ n ≤ (limit : Int) := by
    unfold limit
    omega
  exact_mod_cast hlimits

/-- A bound that is too great to be read has all 64-bit numbers on one side. -/
theorem Side.meets_of_great {x : ℚ} (hgreat : (limit : ℚ) < |x|)
    (hw : side.Meets exclusive x w) (hwrange : InRange w)
    (hrange : InRange n) : side.Meets exclusive x n := by
  obtain ⟨hwleast, hwmost⟩ := cast_le_limit hwrange
  obtain ⟨hleast, hmost⟩ := cast_le_limit hrange
  rcases lt_abs.mp hgreat with hgreat | hgreat <;> cases side <;>
    cases exclusive <;> simp only [Side.Meets] at hw ⊢ <;> linarith

/-- As long as a 64-bit number keeps to a bound, the 64-bit numbers that its
place on the grid admits are those that keep to it. -/
theorem keeps_bound_iff {text : String} {x : ℚ} (hx : Expresses text x)
    {scale : Nat} (hw : side.Meets exclusive x (w / 10 ^ scale))
    (hwrange : InRange w) (hrange : InRange n) :
    (∀ b ∈ bound text scale exclusive side, side.Keeps b n) ↔
      side.Meets exclusive x (n / 10 ^ scale) := by
  rw [Side.meets_div_iff] at hw ⊢
  have hreads := read_reads hx.signed scale
  rw [bound_eq]
  cases hread : read (Text.trim text.toList) scale with
  | none =>
      rw [hread] at hreads
      simpa using Side.meets_of_great hreads hw hwrange hrange
  | some r =>
      rw [hread] at hreads
      have hcuts : r.Cuts (x * 10 ^ scale) := hreads
      have hkeeps := (hcuts.keeps_outermost_iff exclusive side w).mpr hw
      simp only [Option.map_some, Option.mem_def, Option.some.injEq,
        forall_eq']
      rw [Side.keeps_clamp_iff hkeeps hwrange hrange,
        hcuts.keeps_outermost_iff]

theorem inRange_of_bound {text : String} {scale : Nat}
    (hn : n ∈ bound text scale exclusive side) : InRange n := by
  obtain ⟨reading, -, rfl⟩ := Option.map_eq_some_iff.mp hn
  exact Number.inRange_clamp _

/-- The bound that a decimal comes to on the grid admits exactly those 64-bit
numbers that keep to the decimal, if there are any. -/
theorem bound_exact {text : String} {x : ℚ} (hx : Expresses text x)
    (scale : Nat) (exclusive : Bool) (side : Side)
    (hsome : ∃ w, InRange w ∧ side.Meets exclusive x (w / 10 ^ scale)) :
    {n | InRange n ∧ ∀ b ∈ bound text scale exclusive side, side.Keeps b n} =
      {n | InRange n ∧ side.Meets exclusive x (n / 10 ^ scale)} := by
  obtain ⟨w, hwrange, hw⟩ := hsome
  ext n
  exact and_congr_right fun hrange => keeps_bound_iff hx hw hwrange hrange

end Bound

namespace BoundWitness

/-- The tenths below -0.05 begin with the one at -0.1. -/
theorem tenths_exact :
    let x : ℚ := (-5 : Int) / 10 ^ 2
    Expresses "-0.05" x ∧
      (∃ w : Int, InRange w ∧ Side.Meets .upper true x (w / 10 ^ 1)) ∧
      bound "-0.05" 1 true .upper = some (-1) ∧
      {n | InRange n ∧ ∀ b ∈ bound "-0.05" 1 true .upper,
          Side.upper.Keeps b n} =
        {n : Int | InRange n ∧ Side.Meets .upper true x (n / 10 ^ 1)} := by
  intro x
  have htext : Expresses "-0.05" x := expresses_of_written (by decide)
  have hsome : ∃ w : Int, InRange w ∧
      Side.Meets .upper true x (w / 10 ^ 1) := by
    refine ⟨-3, by decide, ?_⟩
    simp only [Side.Meets, x]
    norm_num
  exact ⟨htext, hsome, by decide, bound_exact htext 1 true .upper hsome⟩

end BoundWitness

end Specimen.Scaled
