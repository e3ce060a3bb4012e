/-
Whole numbers as texts.  A literal is a sign, if there is one, and digits, and
white space of the markup may stand around it.  A number that is written denotes
itself.
-/
import Specimen.Markup.Token
import Specimen.Number.Scaled
import Specimen.Proofs.Trimming

namespace Specimen

namespace Decimal

/-- Digits behind an optional sign are a literal of their number. -/
inductive Literal : List Char → Int → Prop where
  | unsigned {s : List Char} (hnumeral : isNumeral s) :
    Literal s (value s)
  | positive {s : List Char} (hnumeral : isNumeral s) :
    Literal ('+' :: s) (value s)
  | negative {s : List Char} (hnumeral : isNumeral s) :
    Literal ('-' :: s) (-(value s : Int))

/-- The text is a literal of the number, up to white space around it. -/
def Denotes (text : String) (n : Int) : Prop :=
  ∃ front body back, text.toList = front ++ body ++ back ∧
    (∀ c ∈ front, Markup.Token.isSpace c = true) ∧
    (∀ c ∈ back, Markup.Token.isSpace c = true) ∧ Literal body n

theorem isNumeral_iff {s : List Char} :
    isNumeral s ↔ s ≠ [] ∧ ∀ c ∈ s, c.isDigit = true := by
  simp [isNumeral]

theorem not_isNumeral_sign {c : Char} {s : List Char}
    (hsign : c = '+' ∨ c = '-') : ¬ isNumeral (c :: s) := by
  intro hnumeral
  have hdigit := (isNumeral_iff.mp hnumeral).2 c List.mem_cons_self
  rcases hsign with rfl | rfl <;> simp [Char.isDigit] at hdigit

theorem Literal.unique {s : List Char} {n m : Int} (hn : Literal s n)
    (hm : Literal s m) : n = m := by
  cases hn with
  | unsigned hnumeral =>
      cases hm with
      | unsigned => rfl
      | positive => exact absurd hnumeral (not_isNumeral_sign (.inl rfl))
      | negative => exact absurd hnumeral (not_isNumeral_sign (.inr rfl))
  | positive =>
      cases hm with
      | unsigned hnumeral =>
          exact absurd hnumeral (not_isNumeral_sign (.inl rfl))
      | positive => rfl
  | negative =>
      cases hm with
      | unsigned hnumeral =>
          exact absurd hnumeral (not_isNumeral_sign (.inr rfl))
      | negative => rfl

theorem toNat_of_isDigit {c : Char} (hdigit : c.isDigit = true) :
    48 ≤ c.toNat ∧ c.toNat ≤ 57 := by
  simpa [Char.isDigit, UInt32.le_iff_toNat_le] using hdigit

theorem isBlank_of_isDigit {c : Char} (hdigit : c.isDigit = true) :
    Text.isBlank c = false := by
  have hrange := toNat_of_isDigit hdigit
  simp only [Text.isBlank, Bool.or_eq_false_iff, Bool.and_eq_false_iff,
    decide_eq_false_iff_not, beq_eq_false_iff_ne]
  omega

theorem isBlank_of_isSpace {c : Char} (hspace : Markup.Token.isSpace c = true) :
    Text.isBlank c = true := by
  simp only [Markup.Token.isSpace, Bool.or_eq_true, beq_iff_eq] at hspace
  rcases hspace with ((rfl | rfl) | rfl) | rfl <;> rfl

/-- A literal is made of signs and digits. -/
theorem Literal.mem {s : List Char} {n : Int} (hliteral : Literal s n)
    {c : Char} (hc : c ∈ s) : c = '+' ∨ c = '-' ∨ c.isDigit = true := by
  cases hliteral with
  | unsigned hnumeral =>
      exact .inr (.inr ((isNumeral_iff.mp hnumeral).2 c hc))
  | positive hnumeral =>
      rcases List.mem_cons.mp hc with rfl | hc
      · exact .inl rfl
      · exact .inr (.inr ((isNumeral_iff.mp hnumeral).2 c hc))
  | negative hnumeral =>
      rcases List.mem_cons.mp hc with rfl | hc
      · exact .inr (.inl rfl)
      · exact .inr (.inr ((isNumeral_iff.mp hnumeral).2 c hc))

theorem Literal.isBlank_of_mem {s : List Char} {n : Int}
    (hliteral : Literal s n) {c : Char} (hc : c ∈ s) :
    Text.isBlank c = false := by
  rcases hliteral.mem hc with rfl | rfl | hdigit
  · rfl
  · rfl
  · exact isBlank_of_isDigit hdigit

theorem Literal.solid {s : List Char} {n : Int} (hliteral : Literal s n) :
    Text.Solid s :=
  ⟨fun _ hc => hliteral.isBlank_of_mem (List.mem_of_mem_head? hc),
    fun _ hc => hliteral.isBlank_of_mem (List.mem_of_mem_getLast? hc)⟩

/-- The literal is what trimming leaves of the text. -/
theorem Denotes.literal {text : String} {n : Int} (hdenotes : Denotes text n) :
    Literal (Text.trim text.toList) n := by
  obtain ⟨front, body, back, htext, hfront, hback, hliteral⟩ := hdenotes
  rw [htext, Text.trim_eq (fun c hc => isBlank_of_isSpace (hfront c hc))
    hliteral.solid (fun c hc => isBlank_of_isSpace (hback c hc))]
  exact hliteral

theorem Denotes.unique {text : String} {n m : Int} (hn : Denotes text n)
    (hm : Denotes text m) : n = m :=
  hn.literal.unique hm.literal

/-- What is asked of the number that a literal denotes. -/
theorem Denotes.exists_iff {text : String} {n : Int} (hn : Denotes text n)
    {property : Int → Prop} :
    (∃ m, Denotes text m ∧ property m) ↔ property n := by
  constructor
  · rintro ⟨m, hm, hproperty⟩
    exact hn.unique hm ▸ hproperty
  · exact fun hproperty => ⟨n, hn, hproperty⟩

theorem isNumeral_digits (n : Nat) : isNumeral (digits n) :=
  isNumeral_iff.mpr ⟨Nat.toDigits_ne_nil,
    fun _ hc => Nat.isDigit_of_mem_toDigits (by decide) (by decide) hc⟩

theorem isNumeral_zeroPadded (width n : Nat) :
    isNumeral (zeroPadded width n) := by
  obtain ⟨hne, hdigits⟩ := isNumeral_iff.mp (isNumeral_digits n)
  refine isNumeral_iff.mpr
    ⟨List.append_ne_nil_of_right_ne_nil _ hne, fun c hc => ?_⟩
  rcases List.mem_append.mp hc with hc | hc
  · rw [List.eq_of_mem_replicate hc]
    rfl
  · exact hdigits c hc

/-- Digits are never padded to a width of one or none. -/
theorem zeroPadded_of_le_one {width : Nat} (hwidth : width ≤ 1) (n : Nat) :
    zeroPadded width n = digits n := by
  have hlength : 0 < (digits n).length :=
    List.length_pos_of_ne_nil Nat.toDigits_ne_nil
  have hnothing : width - (digits n).length = 0 := by omega
  simp [zeroPadded, hnothing]

theorem literal_ofInt (n : Int) : Literal (ofInt n) n := by
  unfold ofInt padded
  by_cases hn : n < 0
  · have habs : n = -(value (digits n.natAbs) : Int) := by
      rw [value_digits]
      omega
    rw [if_pos hn, zeroPadded_of_le_one (Nat.zero_le _)]
    conv => arg 2; rw [habs]
    exact .negative (isNumeral_digits _)
  · have habs : n = (value (digits n.natAbs) : Int) := by
      rw [value_digits]
      omega
    rw [if_neg hn, zeroPadded_of_le_one (Nat.le_refl 1)]
    conv => arg 2; rw [habs]
    exact .unsigned (isNumeral_digits _)

/-- A number that is written denotes itself. -/
theorem denotes_ofInt (n : Int) : Denotes (String.ofList (ofInt n)) n :=
  ⟨[], ofInt n, [], by simp, nofun, nofun, literal_ofInt n⟩

end Decimal

end Specimen
