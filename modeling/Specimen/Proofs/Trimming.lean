/-
What trimming leaves.  A text is blank if all its characters are, and solid if
neither of its ends is a blank; trimming finds the one solid text that is left
when blank text is taken off both ends.
-/
import Mathlib.Data.List.DropRight
import Specimen.Text.Blank

namespace Specimen.Text

/-- Every character of the text is a blank. -/
def Blank (s : List Char) : Prop :=
  ∀ c ∈ s, isBlank c = true

/-- The text neither begins nor ends with a blank. -/
def Solid (s : List Char) : Prop :=
  (∀ c ∈ s.head?, isBlank c = false) ∧ (∀ c ∈ s.getLast?, isBlank c = false)

theorem blank_nil : Blank [] := by
  simp [Blank]

theorem blank_space : Blank [' '] := by
  simp only [Blank, List.mem_singleton, forall_eq]
  decide

theorem Blank.append {s t : List Char} (hs : Blank s) (ht : Blank t) :
    Blank (s ++ t) := by
  intro c hc
  rcases List.mem_append.mp hc with hc | hc
  · exact hs c hc
  · exact ht c hc

theorem blank_takeWhile (s : List Char) : Blank (s.takeWhile isBlank) := by
  intro c hc
  exact List.mem_takeWhile_imp hc

theorem solid_nil : Solid [] := by
  simp [Solid]

/-- Only the empty text may follow or precede in a solid text as a blank
end. -/
theorem Solid.eq_nil_of_append_blank {s back : List Char}
    (hsolid : Solid (s ++ back)) (hback : Blank back) : back = [] := by
  rcases List.eq_nil_or_concat back with rfl | ⟨init, c, rfl⟩
  · rfl
  · have hblank := hback c (by simp)
    have hnot := hsolid.2 c (by simp [← List.append_assoc])
    simp [hblank] at hnot

theorem trimStart_of_blank_append {front s : List Char} (hfront : Blank front) :
    trimStart (front ++ s) = trimStart s :=
  List.dropWhile_append_of_pos hfront

theorem trimStart_eq_self {s : List Char}
    (hhead : ∀ c ∈ s.head?, isBlank c = false) : trimStart s = s := by
  cases s with
  | nil => rfl
  | cons c rest => simp [trimStart, hhead c rfl]

theorem trimEnd_eq_reverse (s : List Char) :
    trimEnd s = (trimStart s.reverse).reverse := rfl

theorem trim_eq {front mid back : List Char} (hfront : Blank front)
    (hmid : Solid mid) (hback : Blank back) :
    trim (front ++ mid ++ back) = mid := by
  rw [trim, List.append_assoc, trimStart_of_blank_append hfront]
  cases mid with
  | nil =>
      have hempty : trimStart back = [] := by
        simpa [trimStart, Blank] using hback
      simp [hempty, trimEnd]
  | cons c rest =>
      have hstart : trimStart (c :: rest ++ back) = c :: rest ++ back :=
        trimStart_eq_self (by simpa using hmid.1)
      have hblank : Blank back.reverse := by
        simpa [Blank] using hback
      rw [hstart, trimEnd_eq_reverse, List.reverse_append,
        trimStart_of_blank_append hblank, trimStart_eq_self,
        List.reverse_reverse]
      rw [List.head?_reverse]
      exact hmid.2

theorem Solid.trim_eq_self {s : List Char} (hsolid : Solid s) : trim s = s := by
  simpa using trim_eq blank_nil hsolid blank_nil

theorem exists_eq_trimStart (s : List Char) :
    ∃ front, Blank front ∧ s = front ++ trimStart s ∧
      ∀ c ∈ (trimStart s).head?, isBlank c = false := by
  refine ⟨s.takeWhile isBlank, blank_takeWhile s,
    List.takeWhile_append_dropWhile.symm, ?_⟩
  intro c hc
  have hnot := List.head?_dropWhile_not isBlank s
  change (trimStart s).head? = some c at hc
  rw [trimStart] at hc
  simpa [hc] using hnot

/-- Blank text at both ends is all that trimming takes off. -/
theorem exists_eq_trim (s : List Char) :
    ∃ front back, Blank front ∧ Blank back ∧ s = front ++ trim s ++ back ∧
      Solid (trim s) := by
  obtain ⟨front, hfront, hs, hhead⟩ := exists_eq_trimStart s
  obtain ⟨back, hback, ht, hlast⟩ := exists_eq_trimStart (trimStart s).reverse
  have ht : trimStart s = trim s ++ back.reverse := by
    rw [trim, trimEnd_eq_reverse, ← List.reverse_append, ← ht,
      List.reverse_reverse]
  have hsolid : Solid (trim s) := by
    constructor
    · intro c hc
      apply hhead
      rw [ht]
      simp only [Option.mem_def] at hc
      simp [List.head?_append, hc]
    · intro c hc
      apply hlast
      rw [trim, trimEnd_eq_reverse] at hc
      simpa using hc
  refine ⟨front, back.reverse, hfront, ?_, ?_, hsolid⟩
  · simpa [Blank] using hback
  · rw [List.append_assoc, ← ht]
    exact hs

/-- Text that does not begin with a blank keeps its beginning. -/
theorem head?_trim {s : List Char} (hhead : ∀ c ∈ s.head?, isBlank c = false)
    (hs : trim s ≠ []) : (trim s).head? = s.head? := by
  obtain ⟨front, back, hfront, hback, heq, -⟩ := exists_eq_trim s
  cases front with
  | nil =>
      obtain ⟨c, rest, htrim⟩ := List.exists_cons_of_ne_nil hs
      rw [htrim] at heq ⊢
      rw [heq]
      rfl
  | cons c front =>
      have hblank := hfront c List.mem_cons_self
      have hnot := hhead c (by rw [heq]; rfl)
      simp [hblank] at hnot

theorem solid_trim (s : List Char) : Solid (trim s) := by
  obtain ⟨front, back, _, _, _, hsolid⟩ := exists_eq_trim s
  exact hsolid

/-- Exactly blank text is trimmed away altogether. -/
theorem trim_eq_nil_iff {s : List Char} : trim s = [] ↔ Blank s := by
  constructor
  · intro hnil
    obtain ⟨front, back, hfront, hback, hs, _⟩ := exists_eq_trim s
    rw [hs, hnil, List.append_nil]
    exact hfront.append hback
  · intro hs
    simpa using trim_eq hs solid_nil blank_nil

end Specimen.Text
