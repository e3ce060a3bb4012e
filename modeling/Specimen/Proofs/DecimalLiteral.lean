/-
Decimal fractions as texts.  A decimal is a sign, if there is one, and digits
with or without a point among them; it stands for a rational number.  Reading it
at a scale cuts off the digits that the scale has no room for, and so reaches
the multiple next to the number on the side of zero, unless that is too great.
-/
import Mathlib.Algebra.Order.Field.Rat
import Mathlib.Tactic.FieldSimp
import Mathlib.Tactic.Linarith
import Mathlib.Tactic.Positivity
import Mathlib.Tactic.Ring
import Specimen.Proofs.IntegerLiteral

namespace Specimen

namespace Decimal

/-- Digits, with a point among them or without one, are a decimal of their
number. -/
inductive Unsigned : List Char → ℚ → Prop where
  | whole {s : List Char} (hnumeral : isNumeral s) : Unsigned s (value s)
  | pointed {s t : List Char} (hnumeral : isNumeral (s ++ t)) :
    Unsigned (s ++ '.' :: t) (value s + value t / 10 ^ t.length)

/-- A decimal behind an optional sign. -/
inductive Signed : List Char → ℚ → Prop where
  | bare {s : List Char} {x : ℚ} (hunsigned : Unsigned s x) : Signed s x
  | plus {s : List Char} {x : ℚ} (hunsigned : Unsigned s x) :
    Signed ('+' :: s) x
  | minus {s : List Char} {x : ℚ} (hunsigned : Unsigned s x) :
    Signed ('-' :: s) (-x)

/-- The text is a decimal of the number, up to blanks around it. -/
def Expresses (text : String) (x : ℚ) : Prop :=
  ∃ front body back, text.toList = front ++ body ++ back ∧ Text.Blank front ∧
    Text.Blank back ∧ Signed body x

section Value

theorem value_append (s t : List Char) :
    value (s ++ t) = 10 ^ t.length * value s + value t := by
  unfold value
  rw [Nat.ofDigitChars_append, Nat.ofDigitChars_eq_ofDigitChars_zero]

theorem value_cons (c : Char) (s : List Char) :
    value (c :: s) = 10 ^ s.length * (c.toNat - 48) + value s := by
  unfold value
  rw [Nat.ofDigitChars_cons, Nat.ofDigitChars_eq_ofDigitChars_zero]
  simp

theorem value_lt {s : List Char} (hdigits : ∀ c ∈ s, c.isDigit = true) :
    value s < 10 ^ s.length := by
  induction s with
  | nil => simp [value]
  | cons c s ih =>
      have hc := toNat_of_isDigit (hdigits c List.mem_cons_self)
      have hs := ih fun d hd => hdigits d (List.mem_cons_of_mem c hd)
      have hfirst : 10 ^ s.length * (c.toNat - 48) ≤ 10 ^ s.length * 9 :=
        Nat.mul_le_mul_left _ (by omega)
      rw [value_cons, List.length_cons, Nat.pow_succ]
      omega

/-- Only zeros are worth nothing. -/
theorem value_eq_zero_iff {s : List Char}
    (hdigits : ∀ c ∈ s, c.isDigit = true) :
    value s = 0 ↔ ∀ c ∈ s, c = '0' := by
  induction s with
  | nil => simp [value]
  | cons c s ih =>
      have hc := toNat_of_isDigit (hdigits c List.mem_cons_self)
      have hs := ih fun d hd => hdigits d (List.mem_cons_of_mem c hd)
      have hzero : c.toNat - 48 = 0 ↔ c = '0' := by
        rw [← Char.toNat_inj]
        simp
        omega
      rw [value_cons, List.forall_mem_cons, ← hs, ← hzero]
      simp

end Value

section Parts

def parts (s : List Char) : List Char × List Char :=
  (Text.cut '.' s).getD (s, [])

theorem not_mem_point {s : List Char} (hdigits : ∀ c ∈ s, c.isDigit = true) :
    '.' ∉ s := by
  intro hmem
  have hdigit := hdigits '.' hmem
  contradiction

theorem cut_eq_none {mark : Char} {s : List Char} (hmark : mark ∉ s) :
    Text.cut mark s = none := by
  induction s with
  | nil => rfl
  | cons c rest ih =>
      rw [List.mem_cons, not_or] at hmark
      rw [Text.cut, if_neg (Ne.symm hmark.1), ih hmark.2]
      rfl

theorem cut_append {mark : Char} {s : List Char} (hmark : mark ∉ s)
    (t : List Char) : Text.cut mark (s ++ mark :: t) = some (s, t) := by
  induction s with
  | nil => simp [Text.cut]
  | cons c s ih =>
      rw [List.mem_cons, not_or] at hmark
      simp [Text.cut, Ne.symm hmark.1, ih hmark.2]

/-- A decimal without sign is told by its two parts. -/
theorem Unsigned.parts_spec {s : List Char} {x : ℚ} (hs : Unsigned s x) :
    isNumeral ((parts s).1 ++ (parts s).2) ∧
      x = value (parts s).1 + value (parts s).2 / 10 ^ (parts s).2.length := by
  cases hs with
  | whole hnumeral =>
      have hcut := cut_eq_none (not_mem_point (isNumeral_iff.mp hnumeral).2)
      simp [parts, hcut, hnumeral, value]
  | @pointed s t hnumeral =>
      have hdigits := (isNumeral_iff.mp hnumeral).2
      have hcut := cut_append (not_mem_point fun c hc =>
        hdigits c (List.mem_append_left t hc)) t
      simp [parts, hcut, hnumeral]

theorem Unsigned.unique {s : List Char} {x y : ℚ} (hx : Unsigned s x)
    (hy : Unsigned s y) : x = y :=
  hx.parts_spec.2.trans hy.parts_spec.2.symm

/-- A decimal without sign is made of digits and perhaps a point. -/
theorem Unsigned.mem {s : List Char} {x : ℚ} (hs : Unsigned s x) {c : Char}
    (hc : c ∈ s) : c = '.' ∨ c.isDigit = true := by
  cases hs with
  | whole hnumeral => exact .inr ((isNumeral_iff.mp hnumeral).2 c hc)
  | pointed hnumeral =>
      have hdigits := (isNumeral_iff.mp hnumeral).2
      simp only [List.mem_append, List.mem_cons] at hc hdigits
      rcases hc with hc | rfl | hc
      · exact .inr (hdigits c (.inl hc))
      · exact .inl rfl
      · exact .inr (hdigits c (.inr hc))

theorem not_unsigned_sign {c : Char} {s : List Char} {x : ℚ}
    (hsign : c = '+' ∨ c = '-') : ¬ Unsigned (c :: s) x := by
  intro hunsigned
  have hmem := hunsigned.mem List.mem_cons_self
  rcases hsign with rfl | rfl <;> simp [Char.isDigit] at hmem

theorem Signed.unique {s : List Char} {x y : ℚ} (hx : Signed s x)
    (hy : Signed s y) : x = y := by
  cases hx with
  | bare hx =>
      cases hy with
      | bare hy => exact hx.unique hy
      | plus => exact absurd hx (not_unsigned_sign (.inl rfl))
      | minus => exact absurd hx (not_unsigned_sign (.inr rfl))
  | plus hx =>
      cases hy with
      | bare hy => exact absurd hy (not_unsigned_sign (.inl rfl))
      | plus hy => exact hx.unique hy
  | minus hx =>
      cases hy with
      | bare hy => exact absurd hy (not_unsigned_sign (.inr rfl))
      | minus hy => exact congrArg Neg.neg (hx.unique hy)

/-- A decimal is made of signs, points and digits. -/
theorem Signed.mem {s : List Char} {x : ℚ} (hs : Signed s x) {c : Char}
    (hc : c ∈ s) : c = '+' ∨ c = '-' ∨ c = '.' ∨ c.isDigit = true := by
  cases hs with
  | bare hunsigned => exact .inr (.inr (hunsigned.mem hc))
  | plus hunsigned =>
      rcases List.mem_cons.mp hc with rfl | hc
      · exact .inl rfl
      · exact .inr (.inr (hunsigned.mem hc))
  | minus hunsigned =>
      rcases List.mem_cons.mp hc with rfl | hc
      · exact .inr (.inl rfl)
      · exact .inr (.inr (hunsigned.mem hc))

theorem Signed.isBlank_of_mem {s : List Char} {x : ℚ} (hs : Signed s x)
    {c : Char} (hc : c ∈ s) : Text.isBlank c = false := by
  rcases hs.mem hc with rfl | rfl | rfl | hdigit
  · rfl
  · rfl
  · rfl
  · exact isBlank_of_isDigit hdigit

theorem Signed.solid {s : List Char} {x : ℚ} (hs : Signed s x) :
    Text.Solid s :=
  ⟨fun _ hc => hs.isBlank_of_mem (List.mem_of_mem_head? hc),
    fun _ hc => hs.isBlank_of_mem (List.mem_of_mem_getLast? hc)⟩

/-- The decimal is what trimming leaves of the text. -/
theorem Expresses.signed {text : String} {x : ℚ} (hx : Expresses text x) :
    Signed (Text.trim text.toList) x := by
  obtain ⟨front, body, back, htext, hfront, hback, hsigned⟩ := hx
  rw [htext, Text.trim_eq hfront hsigned.solid hback]
  exact hsigned

theorem Expresses.unique {text : String} {x y : ℚ} (hx : Expresses text x)
    (hy : Expresses text y) : x = y :=
  hx.signed.unique hy.signed

/-- What is asked of the number that a decimal stands for. -/
theorem Expresses.exists_iff {text : String} {x : ℚ} (hx : Expresses text x)
    {property : ℚ → Prop} :
    (∃ y, Expresses text y ∧ property y) ↔ property x := by
  constructor
  · rintro ⟨y, hy, hproperty⟩
    exact hx.unique hy ▸ hproperty
  · exact fun hproperty => ⟨x, hx, hproperty⟩

end Parts

section Whole

theorem Literal.signed {s : List Char} {n : Int} (hn : Literal s n) :
    Signed s n := by
  cases hn with
  | unsigned hnumeral => exact .bare (.whole hnumeral)
  | positive hnumeral => exact .plus (.whole hnumeral)
  | negative hnumeral =>
      rw [Int.cast_neg]
      exact .minus (.whole hnumeral)

/-- A literal of a whole number is a decimal of it. -/
theorem Denotes.expresses {text : String} {n : Int} (hn : Denotes text n) :
    Expresses text n := by
  obtain ⟨front, body, back, htext, hfront, hback, hliteral⟩ := hn
  exact ⟨front, body, back, htext, fun c hc => isBlank_of_isSpace (hfront c hc),
    fun c hc => isBlank_of_isSpace (hback c hc), hliteral.signed⟩

end Whole

end Decimal

namespace Scaled

open Decimal

theorem tenTo_pos (n : Nat) : 0 < Number.tenTo n :=
  Nat.pow_pos (by decide)

theorem cast_tenTo (n : Nat) : (Number.tenTo n : ℚ) = 10 ^ n :=
  Nat.cast_pow 10 n

theorem value_zeroPadded (width n : Nat) : value (zeroPadded width n) = n := by
  rw [zeroPadded, value_append, value_digits]
  simp [value, Nat.ofDigitChars_replicate_zero]

theorem length_zeroPadded {width n : Nat} (hwidth : 0 < width)
    (hn : n < 10 ^ width) : (zeroPadded width n).length = width := by
  have hlength : (digits n).length ≤ width :=
    (Nat.length_toDigits_le_iff (by decide) hwidth).mpr hn
  simp only [zeroPadded, List.length_append, List.length_replicate]
  omega

theorem isDigit_of_mem_zeroPadded {width n : Nat} {c : Char}
    (hc : c ∈ zeroPadded width n) : c.isDigit = true :=
  (isNumeral_iff.mp (isNumeral_zeroPadded width n)).2 c hc

/-- Quotient and remainder by a power of ten, with a point between them. -/
theorem unsigned_pointed {scale : Nat} (hscale : 0 < scale) (n : Nat) :
    Unsigned (digits (n / Number.tenTo scale) ++
        '.' :: zeroPadded scale (n % Number.tenTo scale)) (n / 10 ^ scale) := by
  have hnumeral : isNumeral (digits (n / Number.tenTo scale) ++
      zeroPadded scale (n % Number.tenTo scale)) := by
    obtain ⟨hne, hdigits⟩ :=
      isNumeral_iff.mp (isNumeral_digits (n / Number.tenTo scale))
    refine isNumeral_iff.mpr ⟨List.append_ne_nil_of_left_ne_nil hne _, ?_⟩
    intro c hc
    rcases List.mem_append.mp hc with hc | hc
    · exact hdigits c hc
    · exact isDigit_of_mem_zeroPadded hc
  have hlength : (zeroPadded scale (n % Number.tenTo scale)).length = scale :=
    length_zeroPadded hscale (Nat.mod_lt n (tenTo_pos scale))
  have hsplit : (n : ℚ) / 10 ^ scale =
      value (digits (n / Number.tenTo scale)) +
        value (zeroPadded scale (n % Number.tenTo scale)) /
          10 ^ (zeroPadded scale (n % Number.tenTo scale)).length := by
    rw [value_digits, value_zeroPadded, hlength, ← cast_tenTo]
    have hdivMod : (Number.tenTo scale : ℚ) * (n / Number.tenTo scale : Nat) +
        (n % Number.tenTo scale : Nat) = n := by
      exact_mod_cast Nat.div_add_mod n (Number.tenTo scale)
    have hpos : (0 : ℚ) < Number.tenTo scale := by
      exact_mod_cast tenTo_pos scale
    rw [← hdivMod]
    field_simp
  rw [hsplit]
  exact .pointed hnumeral

/-- A multiple on the grid of a scale lies on every finer grid. -/
theorem div_pow_of_le {scale finer : Nat} (hle : scale ≤ finer) (n : Int) :
    (n : ℚ) / 10 ^ scale = (n * 10 ^ (finer - scale) : Int) / 10 ^ finer := by
  have hsplit : (10 : ℚ) ^ finer = 10 ^ scale * 10 ^ (finer - scale) := by
    rw [← pow_add, Nat.add_sub_cancel' hle]
  push_cast
  rw [hsplit]
  field_simp

theorem write_natCast (m scale : Nat) :
    write m scale =
      if scale = 0 then digits m
      else digits (m / Number.tenTo scale) ++
        '.' :: zeroPadded scale (m % Number.tenTo scale) := by
  have hsign : ¬ (m : Int) < 0 := Int.not_lt.mpr (Int.natCast_nonneg m)
  simp only [write, ofInt, padded, if_neg hsign, Int.natAbs_natCast,
    zeroPadded_of_le_one (Nat.le_refl 1)]

/-- A multiple below zero is written as a minus sign and its magnitude. -/
theorem write_of_neg {n : Int} (hn : n < 0) (scale : Nat) :
    write n scale = '-' :: write n.natAbs scale := by
  rw [write_natCast, write]
  simp only [if_pos hn]
  split
  · rw [ofInt, padded, if_pos hn, zeroPadded_of_le_one (Nat.zero_le _)]
  · rfl

theorem unsigned_write (m scale : Nat) :
    Unsigned (write m scale) (m / 10 ^ scale) := by
  rw [write_natCast]
  rcases Nat.eq_zero_or_pos scale with rfl | hscale
  · have hwhole : Unsigned (digits m) (value (digits m)) :=
      .whole (isNumeral_digits m)
    simpa [value_digits] using hwhole
  · rw [if_neg (Nat.ne_of_gt hscale)]
    exact unsigned_pointed hscale m

/-- A multiple is written as a decimal of the number that it is. -/
theorem signed_write (n : Int) (scale : Nat) :
    Signed (write n scale) (n / 10 ^ scale) := by
  have hbody := unsigned_write n.natAbs scale
  by_cases hn : n < 0
  · have habs : (n : ℚ) / 10 ^ scale = -((n.natAbs : ℚ) / 10 ^ scale) := by
      rw [Nat.cast_natAbs, abs_of_neg hn, Int.cast_neg]
      ring
    rw [write_of_neg hn, habs]
    exact .minus hbody
  · have habs : (n.natAbs : Int) = n := Int.natAbs_of_nonneg (Int.not_lt.mp hn)
    rw [habs, ← Int.cast_natCast, habs] at hbody
    exact .bare hbody

theorem expresses_write (n : Int) (scale : Nat) :
    Expresses (String.ofList (write n scale)) (n / 10 ^ scale) :=
  ⟨[], write n scale, [], by simp, Text.blank_nil, Text.blank_nil,
    signed_write n scale⟩

theorem expresses_of_written {text : String} {n : Int} {scale : Nat}
    (htext : String.ofList (write n scale) = text) :
    Expresses text (n / 10 ^ scale) :=
  htext ▸ expresses_write n scale

end Scaled

end Specimen
