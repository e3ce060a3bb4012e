/-
The ranges of draws.  A scaled draw stays below its range whatever the stream
holds: the correction that may add one is only made where the answer lies at
least two below the range.
-/
import Mathlib.Tactic.ByContra
import Mathlib.Tactic.SplitIfs
import Specimen.Number
import Specimen.Random.Draws

namespace Specimen.Draw

theorem raw_lt_size (width : Width) (s : Stream) :
    (raw width s).1 < width.size := by
  cases width with
  | word => exact UInt32.toNat_lt _
  | double => exact UInt64.toNat_lt _

/-- The high half of a product stays below the second factor. -/
theorem high_lt {draw full range : Nat} (hdraw : draw < full)
    (hrange : 0 < range) : draw * range / full < range := by
  apply Nat.div_lt_of_lt_mul
  exact Nat.mul_lt_mul_of_pos_right hdraw hrange

/-- Where the low half asks for a correction, the answer is not yet the
greatest one. -/
theorem succ_high_lt {draw full range : Nat} (hdraw : draw < full)
    (hlow : full - range < draw * range % full) :
    draw * range / full + 1 < range := by
  by_contra hge
  have hsplit := Nat.div_add_mod (draw * range) full
  have hproduct : draw * range + range ≤ full * range := by
    rw [← Nat.succ_mul]
    exact Nat.mul_le_mul_right range hdraw
  have hanswer : full * range ≤ full * (draw * range / full) + full := by
    rw [← Nat.mul_succ]
    exact Nat.mul_le_mul_left full (Nat.not_lt.mp hge)
  omega

theorem below_lt (width : Width) {range : Nat} (hrange : 0 < range)
    (s : Stream) : (below width range s).1 < range := by
  rcases hraw : raw width s with ⟨draw, t⟩
  have hdraw : draw < width.size := by
    simpa [hraw] using raw_lt_size width s
  have hhigh := high_lt hdraw hrange
  rcases hagain : raw width t with ⟨again, u⟩
  simp only [below, bind, StateT.bind, hraw]
  by_cases hfull : range = width.size
  · rw [if_pos hfull]
    exact hfull ▸ hdraw
  · rw [if_neg hfull]
    by_cases hlow : draw * range % width.size > width.size - range
    · have hsucc := succ_high_lt hdraw hlow
      simp only [if_pos hlow, StateT.bind, hagain]
      change (ite _ (draw * range / width.size + 1)
        (draw * range / width.size)) < range
      split_ifs
      · exact hsucc
      · exact hhigh
    · rw [if_neg hlow]
      exact hhigh

theorem index_lt {size : Nat} (hsize : 0 < size) (s : Stream) :
    (index size s).1 < size :=
  below_lt .word hsize s

/-- A count lies between its bounds. -/
theorem count_mem {least most : Nat} (hle : least ≤ most) (s : Stream) :
    least ≤ (count least most s).1 ∧ (count least most s).1 ≤ most := by
  have hmin := Nat.min_eq_left hle
  have hmax := Nat.max_eq_right hle
  let width := if max least most ≥ Width.word.size then Width.double
    else Width.word
  have hrange : 0 < max least most - min least most + 1 := Nat.succ_pos _
  have hbelow := below_lt width hrange s
  change least ≤ min least most + (below width _ s).1 ∧
    min least most + (below width _ s).1 ≤ most
  omega

/-- A number lies between its bounds. Only the bounds of all 64-bit numbers make
the range as great as that of a double word, which is then read as signed. -/
theorem integer_mem {low high : Int} (hle : low ≤ high)
    (hlow : Number.InRange low) (hhigh : Number.InRange high) (s : Stream) :
    low ≤ (integer low high s).1 ∧ (integer low high s).1 ≤ high := by
  have hmin := Int.min_eq_left hle
  have hmax := Int.max_eq_right hle
  simp only [Number.InRange, Number.least, Number.greatest] at hlow hhigh
  simp only [integer, hmin, hmax]
  by_cases hfull : (high - low + 1).toNat = Width.double.size
  · have hsize : high - low + 1 = 0x10000000000000000 := by
      simp only [Width.size] at hfull
      omega
    have hvalue (n : Nat) : ((do return Int.bmod (← raw .double) n) s).1 =
        Int.bmod (raw .double s).1 n := rfl
    have hleast := @Int.le_bmod (raw .double s).1 Width.double.size (by decide)
    have hgreatest :=
      @Int.bmod_lt (raw .double s).1 Width.double.size (by decide)
    rw [if_pos hfull, hvalue]
    simp only [Width.size] at hleast hgreatest ⊢
    omega
  · have hbelow := below_lt .double
      (show 0 < (high - low + 1).toNat by omega) s
    rw [if_neg hfull]
    change low ≤ low + ((below .double _ s).1 : Int) ∧
      low + ((below .double _ s).1 : Int) ≤ high
    omega

theorem integer_comm (a b : Int) : integer a b = integer b a := by
  unfold integer
  rw [Int.min_comm, Int.max_comm]

/-- What is drawn between numbers of 64 bits has 64 bits, in whichever order the
numbers come. -/
theorem inRange_integer {a b : Int} (ha : Number.InRange a)
    (hb : Number.InRange b) (s : Stream) :
    Number.InRange (integer a b s).1 := by
  rcases Int.le_total a b with hle | hle
  · obtain ⟨hleast, hmost⟩ := integer_mem hle ha hb s
    exact ⟨Int.le_trans ha.1 hleast, Int.le_trans hmost hb.2⟩
  · obtain ⟨hleast, hmost⟩ := integer_mem hle hb ha s
    rw [integer_comm]
    exact ⟨Int.le_trans hb.1 hleast, Int.le_trans hmost ha.2⟩

theorem choose_nil {α : Type} (s : Stream) :
    choose ([] : List α) s = (none, s) := rfl

/-- The member of a list that is chosen is the one with the index drawn. -/
theorem choose_eq {α : Type} {options : List α} (hne : options ≠ [])
    (s : Stream) :
    (choose options s).1 = options[(index options.length s).1]? := by
  rw [choose, if_neg (by simpa using hne)]
  rfl

/-- What is chosen from a list that is not empty is a member. -/
theorem exists_choose {α : Type} {options : List α} (hne : options ≠ [])
    (s : Stream) : ∃ a ∈ options, (choose options s).1 = some a := by
  have hindex := index_lt (List.length_pos_iff.mpr hne) s
  refine ⟨options[(index options.length s).1], List.getElem_mem hindex, ?_⟩
  exact (choose_eq hne s).trans (List.getElem?_eq_getElem hindex)

theorem length_times {α : Type} (act : Draw α) (n : Nat) (s : Stream) :
    (times act n s).1.length = n := by
  induction n generalizing s with
  | zero => rfl
  | succ n ih =>
      change ((times act n (act s).2).1.length + 1) = n + 1
      rw [ih]

/-- A text drawn character by character has a length between the bounds. -/
theorem length_drawn {least most : Nat} (hle : least ≤ most) (act : Draw Char)
    (s : Stream) :
    let text : Draw String := do
      let length ← count least most
      return String.ofList (← times act length)
    least ≤ (text s).1.length ∧ (text s).1.length ≤ most := by
  have hcount := count_mem hle s
  rcases hdrawn : count least most s with ⟨length, t⟩
  have htimes := length_times act length t
  rcases hletters : times act length t with ⟨drawn, u⟩
  rw [hdrawn] at hcount
  rw [hletters] at htimes
  simp only [bind, StateT.bind, hdrawn, hletters]
  change least ≤ (String.ofList drawn).length ∧
    (String.ofList drawn).length ≤ most
  rw [String.length_ofList, htimes]
  exact hcount

/-- Letters keep to the lengths that they are drawn for. Without a least length
there is at least one letter. -/
theorem length_letters {minLength maxLength : Option Nat}
    (hle : ∀ most ∈ maxLength, minLength.getD 1 ≤ most) (s : Stream) :
    minLength.getD 1 ≤ (letters minLength maxLength s).1.length ∧
      ∀ most ∈ maxLength, (letters minLength maxLength s).1.length ≤ most := by
  cases maxLength with
  | none =>
      have hdrawn := @length_drawn (minLength.getD 1)
        (min (max (minLength.getD 1) 20) (max (minLength.getD 1) 50))
        (by omega) (do return letterAt (← index 52)) s
      exact ⟨hdrawn.1, nofun⟩
  | some most =>
      have hle : minLength.getD 1 ≤ most := hle most rfl
      have hdrawn := @length_drawn (minLength.getD 1)
        (min most (max (minLength.getD 1) 50)) (by omega)
        (do return letterAt (← index 52)) s
      simp only [letters, ge_iff_le, if_pos hle]
      refine ⟨hdrawn.1, ?_⟩
      intro most' hmost'
      cases hmost'
      exact Nat.le_trans hdrawn.2 (Nat.min_le_left _ _)

section Always

/-- What is drawn has the property, whatever the stream holds. -/
def Always {α : Type} (act : Draw α) (property : α → Prop) : Prop :=
  ∀ stream, property (act stream).1

variable {α β : Type} {act : Draw α} {property : α → Prop}
  {property' : β → Prop}

theorem Always.pure {a : α} (ha : property a) :
    Always (pure a : Draw α) property :=
  fun _ => ha

theorem Always.bind {next : α → Draw β} (hact : act.Always property)
    (hnext : ∀ a, property a → (next a).Always property') :
    Always (act >>= next) property' :=
  fun stream => hnext _ (hact stream) _

theorem Always.times (hact : act.Always property) (n : Nat) :
    Always (times act n) fun drawn => ∀ a ∈ drawn, property a := by
  induction n with
  | zero => exact .pure nofun
  | succ n ih =>
      exact hact.bind fun a ha => ih.bind fun drawn hdrawn =>
        .pure (List.forall_mem_cons.mpr ⟨ha, hdrawn⟩)

end Always

end Specimen.Draw
