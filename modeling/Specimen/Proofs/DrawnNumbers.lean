/-
The draws that the stream can make.  A word of the state enters the next word by
a mixing that can be undone, so the next four words may be any; hence every
number of a range is drawn from some state.
-/
import Mathlib.Algebra.Group.Nat.Defs
import Mathlib.Order.Interval.Set.UnorderedInterval
import Specimen.Proofs.DrawRange

namespace Specimen

open Number (InRange)

namespace Stream

/-- What the oldest word of a state adds to the next word. -/
def mix (x : UInt32) : UInt32 :=
  let t := x ^^^ (x <<< 11)
  t ^^^ (t >>> 8)

/-- What the newest word of a state adds to the next word. -/
def carry (w : UInt32) : UInt32 := w ^^^ (w >>> 19)

/-- The word whose mixing is the given one. -/
def unmix (u : UInt32) : UInt32 :=
  let t := u ^^^ (u >>> 8) ^^^ (u >>> 16) ^^^ (u >>> 24)
  t ^^^ (t <<< 11) ^^^ (t <<< 22)

theorem xor_shiftLeft_undone (t : UInt32) :
    let x := t ^^^ (t <<< 11) ^^^ (t <<< 22)
    x ^^^ (x <<< 11) = t := by
  have htwice : (t <<< 11) <<< 11 = t <<< 22 := by
    apply UInt32.toBitVec_inj.mp
    simp [← BitVec.shiftLeft_add]
  have hout : (t <<< 22) <<< 11 = 0 := by
    apply UInt32.toBitVec_inj.mp
    simp [← BitVec.shiftLeft_add]
  simp only [UInt32.shiftLeft_xor, htwice, hout, UInt32.xor_assoc,
    UInt32.xor_zero, UInt32.xor_self]

theorem xor_shiftRight_undone (u : UInt32) :
    let t := u ^^^ (u >>> 8) ^^^ (u >>> 16) ^^^ (u >>> 24)
    t ^^^ (t >>> 8) = u := by
  have htwice : (u >>> 8) >>> 8 = u >>> 16 := by
    apply UInt32.toBitVec_inj.mp
    simp
  have hthrice : (u >>> 16) >>> 8 = u >>> 24 := by
    apply UInt32.toBitVec_inj.mp
    simp
  have hout : (u >>> 24) >>> 8 = 0 := by
    apply UInt32.toBitVec_inj.mp
    simp [BitVec.ushiftRight_eq_zero]
  simp only [UInt32.shiftRight_xor, htwice, hthrice, hout, UInt32.xor_assoc,
    UInt32.xor_zero, UInt32.xor_self]

theorem mix_unmix (u : UInt32) : mix (unmix u) = u := by
  unfold mix unmix
  simp only [xor_shiftLeft_undone, xor_shiftRight_undone]

theorem next_eq (x y z w : UInt32) :
    next ⟨x, y, z, w⟩ = (carry w ^^^ mix x, ⟨y, z, w, carry w ^^^ mix x⟩) := by
  simp only [next, mix, carry, UInt32.xor_assoc]

/-- The oldest word can make the next word any. -/
theorem exists_oldest (w a : UInt32) : ∃ x, carry w ^^^ mix x = a := by
  refine ⟨unmix (carry w ^^^ a), ?_⟩
  rw [mix_unmix, ← UInt32.xor_assoc, UInt32.xor_self, UInt32.zero_xor]

/-- The next four words of a stream may be any. -/
theorem exists_words (a b c d : UInt32) :
    ∃ s t u v v' : Stream, s.next = (a, t) ∧ t.next = (b, u) ∧
      u.next = (c, v) ∧ v.next = (d, v') := by
  obtain ⟨w, hd⟩ := exists_oldest c d
  obtain ⟨x, ha⟩ := exists_oldest w a
  obtain ⟨y, hb⟩ := exists_oldest a b
  obtain ⟨z, hc⟩ := exists_oldest b c
  refine ⟨⟨x, y, z, w⟩, ⟨y, z, w, a⟩, ⟨z, w, a, b⟩, ⟨w, a, b, c⟩, ⟨a, b, c, d⟩,
    ?_, ?_, ?_, ?_⟩
  · rw [next_eq, ha]
  · rw [next_eq, hb]
  · rw [next_eq, hc]
  · rw [next_eq, hd]

end Stream

namespace Draw

theorem toNat_joined (high low : UInt32) :
    ((high.toUInt64 <<< 32) ||| low.toUInt64).toNat =
      high.toNat * 2 ^ 32 + low.toNat := by
  have hhigh := high.toNat_lt
  have hlow := low.toNat_lt
  have hfits : high.toNat * 2 ^ 32 < 2 ^ 64 := by omega
  simp only [UInt64.toNat_or, UInt64.toNat_shiftLeft, UInt32.toNat_toUInt64]
  rw [UInt64.toNat_ofNat, Nat.shiftLeft_eq, Nat.mod_eq_of_lt hfits,
    ← Nat.shiftLeft_eq, Nat.shiftLeft_add_eq_or_of_lt hlow]

/-- The next double word is given by two words, the low one first. -/
theorem raw_double_eq {s t u : Stream} {low high : UInt32}
    (hlow : s.next = (low, t)) (hhigh : t.next = (high, u)) :
    raw .double s = (high.toNat * 2 ^ 32 + low.toNat, u) := by
  rw [← toNat_joined]
  simp only [raw, double, word, bind, StateT.bind, hlow, hhigh]
  rfl

/-- The next two double words of a stream may be any. -/
theorem exists_doubles {m n : Nat} (hm : m < Width.double.size)
    (hn : n < Width.double.size) :
    ∃ s t u : Stream, raw .double s = (m, t) ∧ raw .double t = (n, u) := by
  simp only [Width.size] at hm hn
  have hword {k : Nat} (hk : k < 2 ^ 32) : (UInt32.ofNat k).toNat = k :=
    UInt32.toNat_ofNat_of_lt hk
  obtain ⟨s, t, u, v, v', hfirst, hsecond, hthird, hfourth⟩ :=
    Stream.exists_words
    (.ofNat (m % 2 ^ 32)) (.ofNat (m / 2 ^ 32)) (.ofNat (n % 2 ^ 32))
    (.ofNat (n / 2 ^ 32))
  refine ⟨s, u, v', ?_, ?_⟩
  · rw [raw_double_eq hfirst hsecond, hword (by omega), hword (by omega),
      Nat.div_add_mod']
  · rw [raw_double_eq hthird hfourth, hword (by omega),
      hword (by omega), Nat.div_add_mod']

/-- The next two draws of a width may be any. -/
theorem exists_raws {width : Width} {m n : Nat} (hm : m < width.size)
    (hn : n < width.size) :
    ∃ s t u : Stream, raw width s = (m, t) ∧ raw width t = (n, u) := by
  cases width with
  | word =>
      obtain ⟨s, t, u, _, _, hfirst, hsecond, -⟩ :=
        Stream.exists_words (.ofNat m) (.ofNat n) 0 0
      have hraw {k : Nat} (hk : k < 2 ^ 32) {s t : Stream}
          (hnext : s.next = (.ofNat k, t)) : raw .word s = (k, t) := by
        simp only [raw, word, bind, StateT.bind, hnext]
        exact congrArg (·, t) (UInt32.toNat_ofNat_of_lt hk)
      exact ⟨s, t, u, hraw hm hfirst, hraw hn hsecond⟩
  | double => exact exists_doubles hm hn

/-- The least draw whose product with the range reaches a multiple of the full
size passes it by less than the range. -/
theorem exists_product {range full k : Nat} (hk : k < range)
    (hrange : range ≤ full) :
    ∃ draw < full, draw * range / full = k ∧ draw * range % full < range := by
  have hpos : 0 < range := Nat.lt_of_le_of_lt (Nat.zero_le k) hk
  let draw := (full * k + (range - 1)) / range
  have hsplit : draw * range + (full * k + (range - 1)) % range =
      full * k + (range - 1) := Nat.div_add_mod' _ _
  have hrest := Nat.mod_lt (full * k + (range - 1)) hpos
  obtain ⟨past, hproduct⟩ := Nat.exists_eq_add_of_le
    (show full * k ≤ draw * range by omega)
  have hpast : past < range := by omega
  have hbeyond : full * k + full ≤ full * range := by
    rw [← Nat.mul_succ]
    exact Nat.mul_le_mul_left full hk
  refine ⟨draw, ?_, ?_, ?_⟩
  · apply Nat.lt_of_mul_lt_mul_right (a := range)
    omega
  · rw [hproduct, Nat.mul_add_div (by omega), Nat.div_eq_of_lt (by omega)]
    omega
  · rw [hproduct, Nat.mul_add_mod, Nat.mod_eq_of_lt (by omega)]
    exact hpast

/-- Every number below a range is drawn from some state: a second draw of zero
never carries. -/
theorem exists_below {width : Width} {range k : Nat} (hk : k < range)
    (hrange : range ≤ width.size) :
    ∃ s, (below width range s).1 = k := by
  by_cases hfull : range = width.size
  · obtain ⟨s, t, _, hraw, -⟩ := exists_raws (hfull ▸ hk) (hfull ▸ hk)
    refine ⟨s, ?_⟩
    simp only [below, bind, StateT.bind, hraw, if_pos hfull]
    rfl
  · obtain ⟨draw, hdraw, hhigh, hlow⟩ := exists_product hk hrange
    obtain ⟨s, t, u, hraw, hagain⟩ :=
      exists_raws hdraw (show 0 < width.size by cases width <;> decide)
    refine ⟨s, ?_⟩
    simp only [below, bind, StateT.bind, hraw, if_neg hfull, hhigh]
    split_ifs
    · simp only [StateT.bind, hagain]
      change ite _ (k + 1) k = k
      rw [Nat.zero_mul, Nat.zero_div, if_neg (by omega)]
    · rfl

theorem integer_of_full {low high : Int} (hle : low ≤ high)
    (hfull : (high - low + 1).toNat = Width.double.size) (s : Stream) :
    (integer low high s).1 = Int.bmod (raw .double s).1 Width.double.size := by
  have hvalue (n : Nat) : ((do return Int.bmod (← raw .double) n) s).1 =
      Int.bmod (raw .double s).1 n := rfl
  simp only [integer, Int.min_eq_left hle, Int.max_eq_right hle, if_pos hfull,
    hvalue]

theorem integer_of_not_full {low high : Int} (hle : low ≤ high)
    (hfull : (high - low + 1).toNat ≠ Width.double.size) (s : Stream) :
    (integer low high s).1 =
      low + (below .double (high - low + 1).toNat s).1 := by
  simp only [integer, Int.min_eq_left hle, Int.max_eq_right hle, if_neg hfull]
  rfl

theorem exists_integer {low high z : Int} (hlow : InRange low)
    (hhigh : InRange high) (hlowz : low ≤ z) (hzhigh : z ≤ high) :
    ∃ s, (integer low high s).1 = z := by
  have hle := Int.le_trans hlowz hzhigh
  unfold InRange Number.least Number.greatest at hlow hhigh
  by_cases hfull : (high - low + 1).toNat = Width.double.size
  · have hword : (z % 2 ^ 64).toNat < Width.double.size := by
      simp only [Width.size]
      omega
    obtain ⟨s, t, _, hraw, -⟩ := exists_doubles hword hword
    have hcast : ((z % 2 ^ 64).toNat : Int) = z % 2 ^ 64 :=
      Int.toNat_of_nonneg (Int.emod_nonneg z (by decide))
    refine ⟨s, ?_⟩
    rw [integer_of_full hle hfull, hraw, hcast]
    exact (Int.emod_bmod (x := z) (n := 2 ^ 64)).trans
      (Int.bmod_eq_of_le (by omega) (by omega))
  · obtain ⟨s, hs⟩ := @exists_below .double (high - low + 1).toNat
      (z - low).toNat (by omega) (by simp only [Width.size]; omega)
    refine ⟨s, ?_⟩
    rw [integer_of_not_full hle hfull, hs]
    omega

/-- What is drawn between two bounds are all numbers between them. -/
theorem range_integer {a b : Int} (ha : InRange a) (hb : InRange b) :
    Set.range (fun s => (integer a b s).1) = Set.uIcc a b := by
  wlog hle : a ≤ b generalizing a b
  · rw [integer_comm, Set.uIcc_comm]
    exact this hb ha (by omega)
  · rw [Set.uIcc_of_le hle]
    ext z
    constructor
    · rintro ⟨s, rfl⟩
      exact integer_mem hle ha hb s
    · rintro ⟨hlow, hhigh⟩
      exact exists_integer ha hb hlow hhigh

end Draw

end Specimen
