/-
Registration numbers are valid for every stream.  They are looked at as texts:
so many digits, a region that is not 00, and check digits that agree with the
digits before them.  No digit is lost in writing, and a remainder that is
carried from digit to digit is that of the whole number.
-/
import Mathlib.Data.Nat.Digits.Defs
import Mathlib.Data.Nat.ModEq
import Specimen.Proofs.DecimalLiteral
import Specimen.Proofs.DrawRange
import Specimen.Registration

namespace Specimen.Registration

/-- The digit that a character stands for. -/
def worth (c : Char) : Nat := c.toNat - 48

/-- The sum of digits, each of them with its weight. -/
def weighted (weights : List Nat) (s : List Char) : Nat :=
  (List.zipWith (fun weight c => weight * worth c) weights s).sum

/-- The control number that belongs to a weighted sum: the sum itself below 100,
00 for 100 and 101, and otherwise the remainder by 101 with 100 read as 00. -/
def controlNumber (sum : Nat) : Nat :=
  if sum < 100 then sum
  else if sum = 100 ∨ sum = 101 then 0
  else if sum % 101 = 100 then 0
  else sum % 101

/-- The text has so many characters, and all of them are digits. -/
structure Numeral (size : Nat) (s : List Char) : Prop where
  length : s.length = size
  isDigit : ∀ c ∈ s, c.isDigit = true

/-- Every digit has a weight, and the sum leaves the check digit modulo 11 and
then 10. -/
structure WeightedCheck (weights : List Nat) (s : List Char) (check : Char) :
    Prop where
  length : s.length = weights.length
  worth_eq : worth check = weighted weights s % 11 % 10

/-- The texts that are registration numbers of a kind. -/
inductive Valid : Kind → List Char → Prop where
  | personTaxpayer {s : List Char} {first second : Char}
    (hnumeral : Numeral 12 (s ++ [first, second]))
    (hregion : ¬ ['0', '0'] <+: s)
    (hfirst : WeightedCheck weights11 s first)
    (hsecond : WeightedCheck weights12 (s ++ [first]) second) :
    Valid .personTaxpayer (s ++ [first, second])
  | companyTaxpayer {s : List Char} {check : Char}
    (hnumeral : Numeral 10 (s ++ [check])) (hregion : ¬ ['0', '0'] <+: s)
    (hcheck : WeightedCheck weights10 s check) :
    Valid .companyTaxpayer (s ++ [check])
  | traderRegister {s : List Char} {check : Char}
    (hnumeral : Numeral 15 (s ++ [check]))
    (hcheck : worth check = Decimal.value s % 13 % 10) :
    Valid .traderRegister (s ++ [check])
  | companyRegister {s : List Char} {check : Char}
    (hnumeral : Numeral 13 (s ++ [check]))
    (hcheck : worth check = Decimal.value s % 11 % 10) :
    Valid .companyRegister (s ++ [check])
  | reasonCode {s : List Char} (hnumeral : Numeral 9 s)
    (hregion : ¬ ['0', '0'] <+: s) : Valid .reasonCode s
  | insurance {s t u control : List Char} (hs : Numeral 3 s) (ht : Numeral 3 t)
    (hu : Numeral 3 u) (hnumeral : Numeral 2 control)
    (hcontrol : Decimal.value control =
      controlNumber (weighted [9, 8, 7, 6, 5, 4, 3, 2, 1] (s ++ t ++ u))) :
    Valid .insurance (s ++ '-' :: t ++ '-' :: u ++ ' ' :: control)

section Remainder

theorem remainder_append (divisor : Nat) (body : List Nat) (d : Nat) :
    remainder divisor (body ++ [d]) =
      (remainder divisor body * 10 + d) % divisor :=
  List.foldl_append

/-- The carried remainder is that of the whole number. -/
theorem remainder_eq (divisor : Nat) (body : List Nat) :
    remainder divisor body = Nat.ofDigits 10 body.reverse % divisor := by
  induction body using List.reverseRecOn with
  | nil => exact (Nat.zero_mod divisor).symm
  | append_singleton body d ih =>
      have hcarried : Nat.ModEq divisor (remainder divisor body)
          (Nat.ofDigits 10 body.reverse) := by
        rw [ih]
        exact Nat.mod_modEq _ divisor
      rw [remainder_append, List.reverse_append, List.reverse_singleton,
        List.singleton_append, Nat.ofDigits_cons, Nat.add_comm, Nat.mul_comm]
      exact (hcarried.mul_left 10).add_left d

theorem remainder_lt {divisor : Nat} (hdivisor : 0 < divisor)
    (body : List Nat) : remainder divisor body < divisor := by
  rw [remainder_eq]
  exact Nat.mod_lt _ hdivisor

end Remainder

structure Digits (size : Nat) (body : List Nat) : Prop where
  length : body.length = size
  lt : ∀ d ∈ body, d < 10

variable {size size' d : Nat} {body body' place serial : List Nat}

namespace Digits

theorem singleton (hd : d < 10) : Digits 1 [d] :=
  ⟨rfl, fun _ hmem => List.mem_singleton.mp hmem ▸ hd⟩

theorem append (hbody : Digits size body) (hbody' : Digits size' body') :
    Digits (size + size') (body ++ body') where
  length := by rw [List.length_append, hbody.length, hbody'.length]
  lt e hmem := (List.mem_append.mp hmem).elim (hbody.lt e) (hbody'.lt e)

end Digits

section Writing

theorem isDigit_digitChar (hd : d < 10) : (Nat.digitChar d).isDigit = true := by
  have hall : ∀ d < 10, (Nat.digitChar d).isDigit = true := by decide
  exact hall d hd

theorem worth_digitChar (hd : d < 10) : worth (Nat.digitChar d) = d := by
  rw [worth, Nat.toNat_digitChar_of_lt_ten hd]
  exact Nat.add_sub_cancel_left 48 d

/-- All digits are written. -/
theorem toList_write (hbody : Digits size body) :
    (write body).toList = body.map Nat.digitChar := by
  have hsome : body.filterMap digitChar? =
      body.filterMap (some ∘ Nat.digitChar) :=
    List.filterMap_congr fun d hd => if_pos (hbody.lt d hd)
  rw [write, String.toList_ofList, hsome, List.filterMap_eq_map]

theorem Digits.numeral (hbody : Digits size body) :
    Numeral size (body.map Nat.digitChar) where
  length := by rw [List.length_map, hbody.length]
  isDigit c hc := by
    obtain ⟨d, hd, rfl⟩ := List.mem_map.mp hc
    exact isDigit_digitChar (hbody.lt d hd)

/-- A check digit is written behind the others. -/
theorem toList_write_append (hbody : Digits size body) (hd : d < 10) :
    (write (body ++ [d])).toList =
      body.map Nat.digitChar ++ [Nat.digitChar d] := by
  rw [toList_write (hbody.append (.singleton hd)), List.map_append,
    List.map_singleton]

theorem Digits.numeral_append (hbody : Digits size body) (hd : d < 10) :
    Numeral (size + 1) (body.map Nat.digitChar ++ [Nat.digitChar d]) := by
  have hnumeral := (hbody.append (.singleton hd)).numeral
  rwa [List.map_append, List.map_singleton] at hnumeral

theorem weighted_digitChar (weights : List Nat) (hbody : ∀ d ∈ body, d < 10) :
    weighted weights (body.map Nat.digitChar) =
      Number.total (List.zipWith (· * ·) body weights) := by
  induction weights generalizing body with
  | nil => simp [weighted, Number.total]
  | cons weight weights ih =>
      cases body with
      | nil => simp [weighted, Number.total]
      | cons d body =>
          obtain ⟨hd, hbody⟩ := List.forall_mem_cons.mp hbody
          have hrest := ih hbody
          rw [weighted] at hrest ⊢
          rw [List.map_cons, List.zipWith_cons_cons, List.sum_cons, hrest,
            worth_digitChar hd, List.zipWith_cons_cons, Number.total,
            Nat.mul_comm]

/-- The written digits stand for the number that they are the digits of. -/
theorem value_digitChar (hbody : ∀ d ∈ body, d < 10) :
    Decimal.value (body.map Nat.digitChar) = Nat.ofDigits 10 body.reverse := by
  induction body using List.reverseRecOn with
  | nil => rfl
  | append_singleton body d ih =>
      obtain ⟨hbody, hd⟩ := List.forall_mem_append.mp hbody
      have hlast : Decimal.value [Nat.digitChar d] = d := by
        rw [Decimal.value_cons]
        simpa [Decimal.value, worth] using
          worth_digitChar (hd d (List.mem_singleton_self d))
      rw [List.map_append, List.map_singleton, Decimal.value_append, hlast,
        ih hbody, List.reverse_append, List.reverse_singleton,
        List.singleton_append, Nat.ofDigits_cons]
      exact Nat.add_comm _ _

end Writing

section Checks

theorem weightedCheck_lt (weights body : List Nat) :
    weightedCheck weights body < 10 :=
  Nat.mod_lt _ (by decide)

theorem remainderCheck_lt (divisor : Nat) (body : List Nat) :
    remainderCheck divisor body < 10 :=
  Nat.mod_lt _ (by decide)

theorem weightedCheck_digitChar {weights : List Nat}
    (hbody : Digits weights.length body) :
    WeightedCheck weights (body.map Nat.digitChar)
      (Nat.digitChar (weightedCheck weights body)) where
  length := hbody.numeral.length
  worth_eq := by
    rw [worth_digitChar (weightedCheck_lt weights body),
      weighted_digitChar weights hbody.lt, weightedCheck]

theorem remainderCheck_digitChar (divisor : Nat) (hbody : Digits size body) :
    worth (Nat.digitChar (remainderCheck divisor body)) =
      Decimal.value (body.map Nat.digitChar) % divisor % 10 := by
  rw [worth_digitChar (remainderCheck_lt divisor body), remainderCheck,
    remainder_eq, value_digitChar hbody.lt]

/-- What is written with a remainder behind it. -/
theorem remainder_checked (divisor : Nat) (hbody : Digits size body) :
    ∃ s check, (write (body ++ [remainderCheck divisor body])).toList =
        s ++ [check] ∧
      Numeral (size + 1) (s ++ [check]) ∧
      worth check = Decimal.value s % divisor % 10 :=
  ⟨_, _, toList_write_append hbody (remainderCheck_lt divisor body),
    hbody.numeral_append (remainderCheck_lt divisor body),
    remainderCheck_digitChar divisor hbody⟩

/-- Only one remainder has to be told apart, for sums of any size. -/
theorem insuranceCheck_eq (hbody : Digits size body) :
    insuranceCheck body = controlNumber
      (weighted [9, 8, 7, 6, 5, 4, 3, 2, 1] (body.map Nat.digitChar)) := by
  rw [weighted_digitChar _ hbody.lt]
  unfold insuranceCheck controlNumber
  dsimp only
  generalize Number.total _ = sum
  split_ifs <;> omega

theorem insuranceCheck_lt (body : List Nat) : insuranceCheck body < 100 := by
  unfold insuranceCheck
  dsimp only
  generalize Number.total _ = sum
  split_ifs <;> omega

end Checks

section Parts

/-- The two digits of a region, which are not both 0. -/
inductive IsRegion : List Nat → Prop
  | mk {tens ones : Nat} (htens : tens < 10) (hones : ones < 10)
    (hnonzero : ¬ (tens = 0 ∧ ones = 0)) : IsRegion [tens, ones]

theorem IsRegion.digits (hplace : IsRegion place) : Digits 2 place := by
  cases hplace with
  | mk htens hones => exact (Digits.singleton htens).append (.singleton hones)

theorem IsRegion.not_prefix (hplace : IsRegion place) (body : List Nat) :
    ¬ ['0', '0'] <+: (place ++ body).map Nat.digitChar := by
  cases hplace with
  | @mk tens ones htens hones hnonzero =>
      rintro ⟨rest, hrest⟩
      simp only [List.cons_append, List.nil_append, List.map_cons,
        List.cons.injEq] at hrest
      have htens := worth_digitChar htens
      have hones := worth_digitChar hones
      rw [← hrest.1] at htens
      rw [← hrest.2.1] at hones
      exact hnonzero ⟨htens.symm, hones.symm⟩

theorem digit_always : digit.Always (· < 10) := by
  have hdraw : (Draw.integer 0 9).Always fun n => 0 ≤ n ∧ n ≤ 9 :=
    Draw.integer_mem (by decide) (by decide) (by decide)
  refine hdraw.bind fun n hn => .pure ?_
  omega

theorem digits_always (n : Nat) : (digits n).Always (Digits n) :=
  fun stream =>
    ⟨Draw.length_times digit n stream, digit_always.times n stream⟩

theorem region_always : region.Always IsRegion := by
  have hdraw : (Draw.integer 1 99).Always fun n => 1 ≤ n ∧ n ≤ 99 :=
    Draw.integer_mem (by decide) (by decide) (by decide)
  refine hdraw.bind fun n hn => .pure (.mk ?_ ?_ ?_)
  all_goals omega

/-- Part of a numeral. -/
theorem Numeral.slice {s : List Char} (hs : Numeral size s) {start count : Nat}
    (hle : start + count ≤ size) :
    Numeral count ((s.drop start).take count) where
  length := by
    rw [List.length_take, List.length_drop, hs.length]
    omega
  isDigit c hc := hs.isDigit c (List.mem_of_mem_drop (List.mem_of_mem_take hc))

end Parts

section Numbers

/-- The second check digit weighs the first one as well. -/
theorem personTaxpayer_valid (hplace : IsRegion place)
    (hserial : Digits 8 serial) :
    Valid .personTaxpayer
      (write (place ++ serial ++ [weightedCheck weights11 (place ++ serial)] ++
        [weightedCheck weights12 (place ++ serial ++
          [weightedCheck weights11 (place ++ serial)])])).toList := by
  have hbody : Digits 10 (place ++ serial) := hplace.digits.append hserial
  have hfirst := weightedCheck_lt weights11 (place ++ serial)
  have hwith := hbody.append (.singleton hfirst)
  have hsecond := weightedCheck_lt weights12
    (place ++ serial ++ [weightedCheck weights11 (place ++ serial)])
  have hnumeral := hwith.numeral_append hsecond
  have hcheck : WeightedCheck weights12 _ _ := weightedCheck_digitChar hwith
  rw [toList_write_append hwith hsecond]
  rw [List.map_append, List.map_singleton, List.append_assoc,
    List.singleton_append] at hnumeral ⊢
  rw [List.map_append, List.map_singleton] at hcheck
  exact .personTaxpayer hnumeral (hplace.not_prefix serial)
    (weightedCheck_digitChar hbody) hcheck

theorem companyTaxpayer_valid (hplace : IsRegion place)
    (hserial : Digits 7 serial) :
    Valid .companyTaxpayer (write (place ++ serial ++
      [weightedCheck weights10 (place ++ serial)])).toList := by
  have hbody : Digits 9 (place ++ serial) := hplace.digits.append hserial
  have hcheck := weightedCheck_lt weights10 (place ++ serial)
  rw [toList_write_append hbody hcheck]
  exact .companyTaxpayer (hbody.numeral_append hcheck)
    (hplace.not_prefix serial) (weightedCheck_digitChar hbody)

theorem traderRegister_valid (hbody : Digits 14 body) :
    Valid .traderRegister
      (write (body ++ [remainderCheck 13 body])).toList := by
  obtain ⟨s, check, htext, hnumeral, hcheck⟩ := remainder_checked 13 hbody
  rw [htext]
  exact .traderRegister hnumeral hcheck

theorem companyRegister_valid (hbody : Digits 12 body) :
    Valid .companyRegister
      (write (body ++ [remainderCheck 11 body])).toList := by
  obtain ⟨s, check, htext, hnumeral, hcheck⟩ := remainder_checked 11 hbody
  rw [htext]
  exact .companyRegister hnumeral hcheck

theorem reasonCode_valid (hplace : IsRegion place) {office : List Nat}
    (hoffice : Digits 2 office) (hserial : Digits 3 serial) :
    Valid .reasonCode (write (place ++ office ++ [0, 1] ++ serial)).toList := by
  have hreason : Digits 2 [0, 1] := ⟨rfl, by decide⟩
  have hbody : Digits 9 (place ++ (office ++ ([0, 1] ++ serial))) :=
    hplace.digits.append (hoffice.append (hreason.append hserial))
  rw [List.append_assoc, List.append_assoc, toList_write hbody]
  exact .reasonCode hbody.numeral (hplace.not_prefix _)

/-- The three groups are the whole numeral, which has nine digits, so that no
group reaches beyond its end. -/
theorem insurance_valid (hbody : Digits 9 body) :
    Valid .insurance ((write body).toList.take 3 ++
      '-' :: ((write body).toList.drop 3).take 3 ++
      '-' :: ((write body).toList.drop 6).take 3 ++
      ' ' :: Decimal.zeroPadded 2 (insuranceCheck body)) := by
  have hnumeral := hbody.numeral
  have hcontrol : Numeral 2 (Decimal.zeroPadded 2 (insuranceCheck body)) :=
    ⟨Scaled.length_zeroPadded (by decide) (insuranceCheck_lt body),
      fun _ hc => Scaled.isDigit_of_mem_zeroPadded hc⟩
  rw [toList_write hbody]
  refine .insurance (hnumeral.slice (show 0 + 3 ≤ 9 by decide))
    (hnumeral.slice (by decide)) (hnumeral.slice (by decide)) hcontrol ?_
  have hgroups : (body.map Nat.digitChar).take 3 ++
      ((body.map Nat.digitChar).drop 3).take 3 ++
      ((body.map Nat.digitChar).drop 6).take 3 = body.map Nat.digitChar := by
    rw [← List.take_add, ← List.take_add]
    exact List.take_of_length_le (Nat.le_of_eq hnumeral.length)
  rw [Scaled.value_zeroPadded, hgroups, insuranceCheck_eq hbody]

/-- A number of any kind is valid, whatever the stream holds. -/
theorem draw_always (kind : Kind) :
    (draw kind).Always fun number => Valid kind number.toList := by
  cases kind with
  | personTaxpayer =>
      exact region_always.bind fun place hplace =>
        (digits_always 8).bind fun serial hserial =>
          .pure (personTaxpayer_valid hplace hserial)
  | companyTaxpayer =>
      exact region_always.bind fun place hplace =>
        (digits_always 7).bind fun serial hserial =>
          .pure (companyTaxpayer_valid hplace hserial)
  | traderRegister =>
      refine (digits_always 13).bind fun serial hserial => .pure ?_
      exact traderRegister_valid ((Digits.singleton (by decide)).append hserial)
  | companyRegister =>
      refine (digits_always 11).bind fun serial hserial => .pure ?_
      exact companyRegister_valid
        ((Digits.singleton (by decide)).append hserial)
  | reasonCode =>
      exact region_always.bind fun place hplace =>
        (digits_always 2).bind fun office hoffice =>
          (digits_always 3).bind fun serial hserial =>
            .pure (reasonCode_valid hplace hoffice hserial)
  | insurance =>
      refine (digits_always 9).bind fun body hbody => .pure ?_
      rw [String.toList_ofList]
      exact insurance_valid hbody

end Numbers

/-- For every stream a number of any kind is valid.  The remainder that is
carried from digit to digit is that of the whole number for every list of
digits, and on the way it never reaches ten times the divisor. -/
theorem draw_valid :
    (∀ kind stream, Valid kind (draw kind stream).1.toList) ∧
      ∀ divisor body, 0 < divisor → (∀ d ∈ body, d < 10) →
        remainder divisor body = Nat.ofDigits 10 body.reverse % divisor ∧
        ∀ s d t, body = s ++ d :: t →
          remainder divisor s * 10 + d < 10 * divisor := by
  refine ⟨draw_always, fun divisor body hdivisor hbody =>
    ⟨remainder_eq divisor body, ?_⟩⟩
  rintro s d t rfl
  have hd : d < 10 := hbody d (by simp)
  have hcarried := remainder_lt hdivisor s
  omega

namespace CheckWitness

/-- The digits of a register number in front of its check digit. -/
def twelve : List Nat := [1, 0, 2, 7, 7, 0, 0, 1, 3, 2, 1, 9]

/-- The remainder is carried through all twelve digits, and it is the check
digit. -/
theorem twelve_checked :
    (∀ d ∈ twelve, d < 10) ∧ remainder 11 twelve = 102770013219 % 11 ∧
      remainder 11 [1, 0, 2, 7, 7, 0, 0, 1, 3, 2, 1] * 10 + 9 < 10 * 11 ∧
      remainderCheck 11 twelve = 5 := by
  have hdigits : ∀ d ∈ twelve, d < 10 := by decide
  obtain ⟨hremainder, hcarried⟩ := draw_valid.2 11 twelve (by decide) hdigits
  exact ⟨hdigits, hremainder, hcarried _ 9 [] rfl, by decide⟩

end CheckWitness

end Specimen.Registration
