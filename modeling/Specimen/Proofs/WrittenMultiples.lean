/-
Multiples as texts.  A multiple is written as a decimal with as many digits
behind the point as the scale says, and with a minus sign if it lies below zero.
Every decimal of a multiple, the written one among them, is read as that
multiple; on a finer grid the number is another multiple, and is read as that
one.
-/
import Specimen.Proofs.ScaledBound
import Specimen.Value.Numeric

namespace Specimen

namespace Decimal

/-- How many digits stand behind the point of a text; without a point there are
none. -/
inductive FractionDigits : Nat → List Char → Prop where
  | none {s : List Char} (hpoint : '.' ∉ s) : FractionDigits 0 s
  | behind {s t : List Char} (hnumeral : isNumeral t) :
    FractionDigits t.length (s ++ '.' :: t)

theorem FractionDigits.cons {count : Nat} {s : List Char} {c : Char}
    (hs : FractionDigits count s) (hc : c ≠ '.') :
    FractionDigits count (c :: s) := by
  cases hs with
  | none hpoint =>
      exact .none (List.not_mem_cons_of_ne_of_not_mem hc.symm hpoint)
  | @behind s t hnumeral => exact .behind (s := c :: s) hnumeral

theorem Unsigned.nonneg {s : List Char} {x : ℚ}
    (hs : Unsigned s x) : 0 ≤ x := by
  rw [hs.parts_spec.2]
  positivity

end Decimal

namespace Scaled

open Decimal
open Number (InRange)

section Writing

theorem fractionDigits_write_natCast (m scale : Nat) :
    FractionDigits scale (write m scale) := by
  rw [write_natCast]
  by_cases hscale : scale = 0
  · rw [if_pos hscale, hscale]
    exact .none (not_mem_point (isNumeral_iff.mp (isNumeral_digits m)).2)
  · rw [if_neg hscale]
    have hlength : (zeroPadded scale (m % Number.tenTo scale)).length = scale :=
      length_zeroPadded (Nat.pos_of_ne_zero hscale)
        (Nat.mod_lt m (tenTo_pos scale))
    conv => arg 1; rw [← hlength]
    exact .behind (isNumeral_zeroPadded _ _)

theorem fractionDigits_write (n : Int) (scale : Nat) :
    FractionDigits scale (write n scale) := by
  by_cases hn : n < 0
  · rw [write_of_neg hn]
    exact (fractionDigits_write_natCast _ scale).cons (by decide)
  · rw [← Int.natAbs_of_nonneg (Int.not_lt.mp hn)]
    exact fractionDigits_write_natCast _ scale

theorem minus_mem_write_iff (n : Int) (scale : Nat) :
    '-' ∈ write n scale ↔ n < 0 := by
  by_cases hn : n < 0
  · rw [write_of_neg hn]
    exact iff_of_true List.mem_cons_self hn
  · refine iff_of_false (fun hmem => ?_) hn
    rw [← Int.natAbs_of_nonneg (Int.not_lt.mp hn)] at hmem
    rcases (unsigned_write n.natAbs scale).mem hmem with h | h <;> contradiction

end Writing

section Reading

/-- A multiple is not cut, since no other multiple is less than one unit away.
-/
theorem Reading.Cuts.eq_of_int {r : Reading} {m : Int} (hr : r.Cuts m) :
    r.exact = true ∧ r.truncated = m := by
  cases hexact : r.exact with
  | true =>
      have htruncated := hr.exact hexact
      exact ⟨rfl, by exact_mod_cast htruncated.symm⟩
  | false =>
      obtain ⟨hbelow, habove⟩ := hr.inexact hexact
      have hbelow : r.floor < m := by exact_mod_cast hbelow
      have habove : m < r.floor + 1 := by exact_mod_cast habove
      omega

/-- A reading says whether the number lies below zero, even if nothing is left
of the number on the grid. -/
theorem read_negative_iff {s : List Char} {x : ℚ} (hs : Signed s x)
    {scale : Nat} {r : Reading} (hr : read s scale = some r) :
    r.negative = true ↔ x < 0 := by
  obtain ⟨negative, body, y, hbody, rfl, hread⟩ := read_eq_readDigits hs
  obtain ⟨magnitude, rest, exact, hsum, hleast, -, hexact, hdigits⟩ :=
    readDigits_split hbody scale
  rw [hread, hdigits] at hr
  split at hr
  · contradiction
  obtain rfl := Option.some.inj hr
  have hpos : (10 : ℚ) ^ scale ≠ 0 := by positivity
  have hzero : (exact && magnitude == 0) = true ↔ y = 0 := by
    rw [Bool.and_eq_true, hexact, beq_iff_eq]
    calc rest = 0 ∧ magnitude = 0
        ↔ (magnitude : ℚ) = 0 ∧ rest = 0 := by rw [Nat.cast_eq_zero, and_comm]
      _ ↔ y * 10 ^ scale = 0 := by
        rw [hsum, add_eq_zero_iff_of_nonneg (Nat.cast_nonneg magnitude) hleast]
      _ ↔ y = 0 := mul_eq_zero_iff_right hpos
  cases negative with
  | false => simpa using hbody.nonneg
  | true =>
      simp only [if_true, Bool.true_and]
      rw [neg_lt_zero, hbody.nonneg.lt_iff_ne', ne_eq, ← hzero,
        Bool.not_eq_true', Bool.not_eq_true]

/-- Every decimal of a multiple within the limit is read as that multiple. -/
theorem read_of_multiple {s : List Char} {m : Int} {scale : Nat}
    (hs : Signed s (m / 10 ^ scale)) (hlimit : m.natAbs ≤ limit) :
    read s scale = some ⟨m, true, decide (m < 0)⟩ := by
  have hpos : (0 : ℚ) < 10 ^ scale := by positivity
  have hreads := read_reads hs scale
  rw [div_mul_cancel₀ _ hpos.ne'] at hreads
  cases hread : read s scale with
  | none =>
      rw [hread, Reads, ← Int.cast_abs, Int.abs_eq_natAbs] at hreads
      exact absurd hlimit (Nat.not_le.mpr (by exact_mod_cast hreads))
  | some r =>
      rw [hread] at hreads
      obtain ⟨hexact, htruncated⟩ := Reading.Cuts.eq_of_int hreads
      have hnegative : r.negative = true ↔ m < 0 := by
        rw [read_negative_iff hs hread, div_lt_iff₀ hpos, zero_mul,
          Int.cast_lt_zero]
      obtain ⟨truncated, exact, negative⟩ := r
      subst hexact htruncated
      rw [Option.some.injEq, Reading.mk.injEq]
      exact ⟨rfl, rfl,
        Bool.eq_iff_iff.mpr (hnegative.trans decide_eq_true_iff.symm)⟩

/-- A number of 64 bits stays within the limit on every finer grid that values
have. -/
theorem natAbs_mul_pow_le {n : Int} (hrange : InRange n) {k : Nat}
    (hk : k ≤ Value.greatestScale) : (n * 10 ^ k).natAbs ≤ limit := by
  have hn : n.natAbs ≤ 2 ^ 63 := by
    unfold InRange Number.least Number.greatest at hrange
    omega
  calc (n * 10 ^ k).natAbs
      = n.natAbs * 10 ^ k := by rw [Int.natAbs_mul, Int.natAbs_pow]; rfl
    _ ≤ 2 ^ 63 * 10 ^ Value.greatestScale :=
        Nat.mul_le_mul hn (Nat.pow_le_pow_right (by decide) hk)
    _ ≤ limit := by decide

/-- Every decimal of a multiple of 64 bits is, as an included bound on either
side, that multiple. -/
theorem bound_of_multiple {text : String} {m : Int} {scale : Nat}
    (hx : Expresses text (m / 10 ^ scale)) (hrange : InRange m) (side : Side) :
    bound text scale false side = some m := by
  have hlimit : m.natAbs ≤ limit := by
    simpa using natAbs_mul_pow_le hrange (Nat.zero_le _)
  rw [bound_eq, read_of_multiple hx.signed hlimit, Option.map_some]
  cases side <;>
    simp [Reading.outermost, inward, Number.clamp_of_inRange hrange]

/-- What is written at a scale is read there, and on a finer grid, as the
multiple that the number is. -/
theorem read_write {n : Int} (hrange : InRange n) {scale finer : Nat}
    (hle : scale ≤ finer) (hfiner : finer - scale ≤ Value.greatestScale) :
    read (write n scale) finer =
      some ⟨n * 10 ^ (finer - scale), true, decide (n < 0)⟩ := by
  have hsign : n * 10 ^ (finer - scale) < 0 ↔ n < 0 := by
    have hpos : (0 : Int) < 10 ^ (finer - scale) := by positivity
    rw [mul_neg_iff]
    omega
  have hsigned := signed_write n scale
  rw [div_pow_of_le hle] at hsigned
  rw [read_of_multiple hsigned (natAbs_mul_pow_le hrange hfiner)]
  simp only [hsign]

end Reading

/-- A multiple as a text and back.  The text is a decimal of the number, with as
many fraction digits as the scale says, and with a minus sign exactly below
zero.  It is read as the multiple that was written, with nothing cut off and the
sign of the number, and as an included bound on either side it is that multiple.
On every finer grid that values have it is read as the multiple that the number
is there. -/
theorem written_reads_back {n : Int} (hrange : InRange n) (scale : Nat) :
    Signed (write n scale) (n / 10 ^ scale) ∧
      FractionDigits scale (write n scale) ∧
      ('-' ∈ write n scale ↔ n < 0) ∧
      read (write n scale) scale = some ⟨n, true, decide (n < 0)⟩ ∧
      (∀ side, bound (String.ofList (write n scale)) scale false
        side = some n) ∧
      ∀ finer, scale ≤ finer → finer ≤ Value.greatestScale →
        read (write n scale) finer =
          some ⟨n * 10 ^ (finer - scale), true, decide (n < 0)⟩ := by
  have hread : read (write n scale) scale = some ⟨n, true, decide (n < 0)⟩ := by
    simpa using read_write hrange (Nat.le_refl scale) (by simp)
  exact ⟨signed_write n scale, fractionDigits_write n scale,
    minus_mem_write_iff n scale, hread,
    bound_of_multiple (expresses_write n scale) hrange,
    fun finer hle hfiner =>
      read_write hrange hle (Nat.le_trans (Nat.sub_le _ _) hfiner)⟩

namespace MultipleWitness

/-- The least number of 64 bits in hundredths, read again at the finest scale.
-/
theorem least_reads_back :
    InRange Number.least ∧
      String.ofList (write Number.least 2) = "-92233720368547758.08" ∧
      Signed "-92233720368547758.08".toList (Number.least / 10 ^ 2) ∧
      FractionDigits 2 "-92233720368547758.08".toList ∧
      read "-92233720368547758.08".toList 2 = some ⟨Number.least, true, true⟩ ∧
      (∀ side, bound "-92233720368547758.08" 2 false side = some Number.least) ∧
      2 ≤ 18 ∧ 18 ≤ Value.greatestScale ∧
      read "-92233720368547758.08".toList 18 =
        some ⟨-92233720368547758080000000000000000, true, true⟩ := by
  have hrange : InRange Number.least := by decide
  have hwritten : write Number.least 2 = "-92233720368547758.08".toList := by
    decide
  have hfinest : 18 ≤ Value.greatestScale := by decide
  obtain ⟨hsigned, hdigits, -, hread, hbound, hfiner⟩ :=
    written_reads_back hrange 2
  rw [hwritten] at hsigned hdigits hread hbound hfiner
  exact ⟨hrange, by rw [hwritten]; rfl, hsigned, hdigits, hread,
    hbound, by decide, hfinest, hfiner 18 (by decide) hfinest⟩

end MultipleWitness

/-- Above minus one only the sign and zeros stand in front of the digits. -/
example : String.ofList (write (-5) 2) = "-0.05" := by decide

end Scaled

end Specimen
