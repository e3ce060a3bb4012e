/-
Sets of characters.  Whatever ranges a set is made of, it has their characters
as members, and its own ranges hold nothing but characters: they are in order
and stay on one side of the surrogates.  Such a set has a member for every index
below its size.
-/
import Specimen.Regex.CharSet

namespace Specimen.Regex.CharSet

/-- One of the ranges holds the code point. -/
def Covers (ranges : List (Nat × Nat)) (n : Nat) : Prop :=
  ∃ range ∈ ranges, range.1 ≤ n ∧ n ≤ range.2

/-- The ends are in order, with no surrogate and nothing beyond the last
character between them. -/
def IsRange (range : Nat × Nat) : Prop :=
  range.1 ≤ range.2 ∧
    (range.2 ≤ 0xD7FF ∨ 0xE000 ≤ range.1 ∧ range.2 ≤ 0x10FFFF)

def Rising (ranges : List (Nat × Nat)) : Prop :=
  ranges.Pairwise fun a b => a.1 ≤ b.1

def Valid (s : CharSet) : Prop := ∀ range ∈ s.ranges, IsRange range

variable {s t : CharSet} {ranges rest : List (Nat × Nat)} {c : Char}
  {low high n i : Nat}

section Ranges

theorem covers_cons_iff : Covers ((low, high) :: rest) n ↔
    low ≤ n ∧ n ≤ high ∨ Covers rest n := by
  simp [Covers]

theorem covers_append_iff : Covers (ranges ++ rest) n ↔
    Covers ranges n ∨ Covers rest n := by
  simp only [Covers, List.mem_append, or_and_right, exists_or]

theorem IsRange.isValidChar (hrange : IsRange (low, high)) (hlow : low ≤ n)
    (hhigh : n ≤ high) : n.isValidChar := by
  simp only [IsRange] at hrange
  simp only [Nat.isValidChar]
  omega

theorem isRange_of_mem_aroundSurrogates {range : Nat × Nat}
    (hrange : range ∈ aroundSurrogates low high) : IsRange range := by
  obtain ⟨hmem, hle⟩ := List.mem_filter.mp hrange
  simp only [List.mem_cons, List.not_mem_nil, or_false] at hmem
  rcases hmem with rfl | rfl <;> simp [IsRange] at hle ⊢ <;> omega

/-- Leaving out the surrogates leaves out no character. -/
theorem covers_aroundSurrogates_iff (hn : n.isValidChar) :
    Covers (aroundSurrogates low high) n ↔ low ≤ n ∧ n ≤ high := by
  simp only [Nat.isValidChar] at hn
  constructor
  · rintro ⟨range, hrange, hleast, hmost⟩
    obtain ⟨hmem, -⟩ := List.mem_filter.mp hrange
    simp only [List.mem_cons, List.not_mem_nil, or_false] at hmem
    rcases hmem with rfl | rfl <;> simp only at hleast hmost <;> omega
  · intro hbetween
    by_cases hside : n ≤ 0xD7FF
    · refine ⟨(low, min high 0xD7FF), List.mem_filter.mpr ⟨?_, ?_⟩, ?_⟩
      · exact List.mem_cons_self
      · simp only [decide_eq_true_eq]
        omega
      · simp only
        omega
    · refine ⟨(max low 0xE000, min high 0x10FFFF),
        List.mem_filter.mpr ⟨?_, ?_⟩, ?_⟩
      · exact List.mem_cons_of_mem _ List.mem_cons_self
      · simp only [decide_eq_true_eq]
        omega
      · simp only
        omega

theorem Rising.widen {a b : Nat}
    (hrising : Rising ((low, high) :: (a, b) :: rest)) :
    Rising ((low, max high b) :: rest) := by
  obtain ⟨hlow, hrest⟩ := List.pairwise_cons.mp hrising
  refine List.pairwise_cons.mpr ⟨?_, hrest.tail⟩
  exact fun range hrange => hlow range (List.mem_cons_of_mem _ hrange)

theorem rising_mergeSort (ranges : List (Nat × Nat)) :
    Rising (ranges.mergeSort fun a b => a.1 ≤ b.1) := by
  have hsorted := @List.pairwise_mergeSort (Nat × Nat)
    (fun a b => decide (a.1 ≤ b.1))
    (fun a b c hab hbc => by simp only [decide_eq_true_eq] at *; omega)
    (fun a b => by simp only [Bool.or_eq_true, decide_eq_true_eq]; omega) ranges
  simpa [Rising] using hsorted

/-- Rising ranges cover the same code points when they are joined. -/
theorem covers_joinFrom_iff
    (hrising : Rising ((low, high) :: rest)) :
    Covers (joinFrom low high rest) n ↔ Covers ((low, high) :: rest) n := by
  induction rest generalizing low high with
  | nil => rfl
  | cons range rest ih =>
      obtain ⟨a, b⟩ := range
      obtain ⟨hlow, hrest⟩ := List.pairwise_cons.mp hrising
      have hle : low ≤ a := hlow _ List.mem_cons_self
      rw [joinFrom]
      by_cases hmeet : a ≤ high + 1
      · rw [if_pos hmeet, ih hrising.widen]
        simp only [covers_cons_iff, ← or_assoc]
        exact or_congr_left (by omega)
      · rw [if_neg hmeet, covers_cons_iff, ih hrest, ← covers_cons_iff]

/-- Joining rising ranges of characters gives ranges of characters. -/
theorem isRange_joinFrom
    (hrising : Rising ((low, high) :: rest))
    (hranges : ∀ range ∈ (low, high) :: rest, IsRange range) :
    ∀ range ∈ joinFrom low high rest, IsRange range := by
  induction rest generalizing low high with
  | nil => exact hranges
  | cons range rest ih =>
      obtain ⟨a, b⟩ := range
      obtain ⟨hlow, hrest⟩ := List.pairwise_cons.mp hrising
      have hle : low ≤ a := hlow _ List.mem_cons_self
      obtain ⟨hfirst, hothers⟩ := List.forall_mem_cons.mp hranges
      obtain ⟨hsecond, hlater⟩ := List.forall_mem_cons.mp hothers
      rw [joinFrom]
      by_cases hmeet : a ≤ high + 1
      · rw [if_pos hmeet]
        have hjoined : IsRange (low, max high b) := by
          simp only [IsRange] at hfirst hsecond ⊢
          omega
        exact ih hrising.widen
          (List.forall_mem_cons.mpr ⟨hjoined, hlater⟩)
      · rw [if_neg hmeet]
        exact List.forall_mem_cons.mpr ⟨hfirst, ih hrest hothers⟩

end Ranges

section Sets

theorem contains_iff : s.contains c ↔ Covers s.ranges c.toNat := by
  simp [contains, Covers]

/-- The parts of some ranges on both sides of the surrogates, in rising
order. -/
def parts (ranges : List (Nat × Nat)) : List (Nat × Nat) :=
  (ranges.flatMap fun (low, high) => aroundSurrogates low high).mergeSort
    fun a b => a.1 ≤ b.1

theorem mem_parts_iff {part : Nat × Nat} : part ∈ parts ranges ↔
    ∃ range ∈ ranges, part ∈ aroundSurrogates range.1 range.2 := by
  rw [parts, List.mem_mergeSort, List.mem_flatMap]

/-- Ranges that begin in rising order, joined where they meet. -/
def joined : List (Nat × Nat) → List (Nat × Nat)
  | [] => []
  | (low, high) :: rest => joinFrom low high rest

theorem ranges_ofRanges (ranges : List (Nat × Nat)) :
    (ofRanges ranges).ranges = joined (parts ranges) := by
  unfold ofRanges
  dsimp only
  rw [← parts]
  rcases parts ranges with _ | ⟨⟨low, high⟩, rest⟩ <;> rfl

theorem covers_ofRanges_iff :
    Covers (ofRanges ranges).ranges n ↔ Covers (parts ranges) n := by
  have hrising : Rising (parts ranges) := rising_mergeSort _
  rw [ranges_ofRanges]
  generalize parts ranges = sorted at hrising ⊢
  rcases sorted with _ | ⟨⟨low, high⟩, rest⟩
  · rfl
  · exact covers_joinFrom_iff hrising

/-- A set has the characters of its ranges as members, and no others. -/
theorem contains_ofRanges_iff :
    (ofRanges ranges).contains c ↔ Covers ranges c.toNat := by
  rw [contains_iff, covers_ofRanges_iff]
  constructor
  · rintro ⟨part, hpart, hcode⟩
    obtain ⟨range, hrange, haround⟩ := mem_parts_iff.mp hpart
    exact ⟨range, hrange,
      (covers_aroundSurrogates_iff c.valid).mp ⟨part, haround, hcode⟩⟩
  · rintro ⟨range, hrange, hcode⟩
    obtain ⟨part, haround, hpart⟩ :=
      (covers_aroundSurrogates_iff c.valid).mpr hcode
    exact ⟨part, mem_parts_iff.mpr ⟨range, hrange, haround⟩, hpart⟩

/-- Whatever it is made from, a set has ranges of characters. -/
theorem valid_ofRanges (ranges : List (Nat × Nat)) :
    (ofRanges ranges).Valid := by
  have hrising : Rising (parts ranges) := rising_mergeSort _
  have hranges : ∀ part ∈ parts ranges, IsRange part := by
    intro part hpart
    obtain ⟨range, -, haround⟩ := mem_parts_iff.mp hpart
    exact isRange_of_mem_aroundSurrogates haround
  rw [Valid, ranges_ofRanges]
  generalize parts ranges = sorted at hrising hranges ⊢
  rcases sorted with _ | ⟨⟨low, high⟩, rest⟩
  · simp [joined]
  · exact isRange_joinFrom hrising hranges

theorem contains_ofChars_iff {cs : List Char} :
    (ofChars cs).contains c ↔ c ∈ cs := by
  rw [ofChars, contains_ofRanges_iff]
  constructor
  · rintro ⟨range, hrange, hlow, hhigh⟩
    obtain ⟨d, hd, rfl⟩ := List.mem_map.mp hrange
    have hcode : c.toNat = d.toNat := Nat.le_antisymm hhigh hlow
    exact Char.toNat_inj.mp hcode ▸ hd
  · intro hc
    exact ⟨_, List.mem_map_of_mem hc, Nat.le_refl _, Nat.le_refl _⟩

theorem contains_union_iff :
    (s.union t).contains c ↔ s.contains c ∨ t.contains c := by
  rw [union, contains_ofRanges_iff, covers_append_iff, ← contains_iff,
    ← contains_iff]

theorem not_contains_empty : ¬ empty.contains c := by
  simp [contains_iff, Covers, empty]

theorem valid_empty : empty.Valid := by
  simp [Valid, empty]

end Sets

section Members

theorem toNat_of_charOfCode? (hchar : Text.charOfCode? n = some c) :
    c.toNat = n := by
  rw [Text.charOfCode?] at hchar
  by_cases hvalid : n.isValidChar
  · rw [dif_pos hvalid] at hchar
    cases hchar
    rfl
  · rw [dif_neg hvalid] at hchar
    cases hchar

theorem contains_of_member? (hmember : s.member? i = some c) :
    s.contains c := by
  rw [contains_iff]
  unfold member? at hmember
  generalize s.ranges = ranges at hmember ⊢
  induction ranges generalizing i with
  | nil => cases hmember
  | cons range rest ih =>
      obtain ⟨low, high⟩ := range
      rw [covers_cons_iff]
      rw [member?.go] at hmember
      by_cases hi : i < high + 1 - low
      · rw [if_pos hi] at hmember
        have hcode := toNat_of_charOfCode? hmember
        exact .inl (by omega)
      · rw [if_neg hi] at hmember
        exact .inr (ih hmember)

/-- A set of characters has a member for every index below its size. -/
theorem exists_member? (hs : s.Valid) (hi : i < s.size) :
    ∃ c, s.member? i = some c := by
  unfold size at hi
  unfold member?
  unfold Valid at hs
  generalize s.ranges = ranges at hi hs ⊢
  induction ranges generalizing i with
  | nil => cases hi
  | cons range rest ih =>
      obtain ⟨low, high⟩ := range
      obtain ⟨hrange, hrest⟩ := List.forall_mem_cons.mp hs
      change i < high + 1 - low + Number.total (rest.map _) at hi
      rw [member?.go]
      by_cases hfirst : i < high + 1 - low
      · have hvalid : (low + i).isValidChar :=
          hrange.isValidChar (by omega) (by omega)
        rw [if_pos hfirst, Text.charOfCode?, dif_pos hvalid]
        exact ⟨_, rfl⟩
      · rw [if_neg hfirst]
        exact ih (by omega) hrest

theorem size_pos (hs : s.Valid) (hranges : s.ranges ≠ []) : 0 < s.size := by
  obtain ⟨⟨low, high⟩, rest, heq⟩ := List.exists_cons_of_ne_nil hranges
  have hrange := (hs (low, high) (heq ▸ List.mem_cons_self)).1
  rw [size, heq, List.map_cons, Number.total]
  simp only at hrange ⊢
  omega

theorem contains_of_single? (hsingle : s.single? = some c) : s.contains c := by
  rw [single?] at hsingle
  by_cases hsize : s.size = 1
  · rw [if_pos hsize] at hsingle
    exact contains_of_member? hsingle
  · rw [if_neg hsize] at hsingle
    cases hsingle

end Members

end Specimen.Regex.CharSet
