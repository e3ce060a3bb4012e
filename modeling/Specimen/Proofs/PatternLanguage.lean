/-
The language of patterns, constructor by constructor.  A list of patterns is
read as a sequence, each one behind the other, or as a choice between them; the
trees built from lists and the lists taken from trees mean the same.
-/
import Specimen.Regex.Pattern

namespace Specimen.Regex

namespace Place

@[simp] theorem skip_nil (p : Place) : p.skip [] = p := rfl

@[simp] theorem skip_append (p : Place) (u v : List Char) :
    p.skip (u ++ v) = (p.skip u).skip v := by
  induction u generalizing p with
  | nil => rfl
  | cons c u ih => exact ih _

end Place

namespace Pattern

variable {p q first second body : Pattern} {ps qs : List Pattern}
  {place : Place} {w cs : List Char} {set : CharSet} {condition : Look}
  {least n k : Nat} {most : Option Nat} {greedy : Bool}
  {capture : Option Capture}

section Constructors

@[simp] theorem matches_empty_iff : empty.Matches place w ↔ w = [] := by
  constructor
  · rintro ⟨⟩
    rfl
  · rintro rfl
    exact .empty place

@[simp] theorem matches_text_iff : (text cs).Matches place w ↔ w = cs := by
  constructor
  · rintro ⟨⟩
    rfl
  · rintro rfl
    exact .text place w

@[simp] theorem matches_chars_iff : (chars set).Matches place w ↔
    ∃ c, set.contains c ∧ w = [c] := by
  constructor
  · rintro ⟨⟩
    exact ⟨_, ‹_›, rfl⟩
  · rintro ⟨c, hc, rfl⟩
    exact .chars place hc

@[simp] theorem matches_look_iff : (look condition).Matches place w ↔
    condition.holds place ∧ w = [] := by
  constructor
  · rintro ⟨⟩
    exact ⟨‹_›, rfl⟩
  · rintro ⟨hholds, rfl⟩
    exact .look hholds

theorem matches_repeated_iff :
    (repeated least most greedy body).Matches place w ↔
    ∃ n, least ≤ n ∧ (∀ m ∈ most, n ≤ m) ∧ MatchesTimes n body place w := by
  constructor
  · rintro ⟨⟩
    exact ⟨_, ‹_›, ‹_›, ‹_›⟩
  · rintro ⟨n, hleast, hmost, htimes⟩
    exact .repeated hleast hmost htimes

@[simp] theorem matches_group_iff : (group capture body).Matches place w ↔
    body.Matches place w := by
  constructor
  · rintro ⟨⟩
    assumption
  · exact .group

theorem matches_sequence_iff : (sequence first second).Matches place w ↔
    ∃ u v, w = u ++ v ∧ first.Matches place u ∧
      second.Matches (place.skip u) v := by
  constructor
  · rintro ⟨⟩
    exact ⟨_, _, rfl, ‹_›, ‹_›⟩
  · rintro ⟨u, v, rfl, hfirst, hsecond⟩
    exact .sequence hfirst hsecond

@[simp] theorem matches_choice_iff : (choice first second).Matches place w ↔
    first.Matches place w ∨ second.Matches place w := by
  constructor
  · rintro (_ | _ | _)
    · exact .inl ‹_›
    · exact .inr ‹_›
  · rintro (hfirst | hsecond)
    · exact .inFirst hfirst
    · exact .inSecond hsecond

end Constructors

section Times

@[simp] theorem matchesTimes_zero_iff :
    MatchesTimes 0 body place w ↔ w = [] := by
  constructor
  · rintro ⟨⟩
    rfl
  · rintro rfl
    exact .zero body place

theorem matchesTimes_succ_iff : MatchesTimes (n + 1) body place w ↔
    ∃ u v, w = u ++ v ∧ body.Matches place u ∧
      MatchesTimes n body (place.skip u) v := by
  constructor
  · rintro ⟨⟩
    exact ⟨_, _, rfl, ‹_›, ‹_›⟩
  · rintro ⟨u, v, rfl, hfirst, hrest⟩
    exact .succ hfirst hrest

@[simp] theorem matchesTimes_one_iff :
    MatchesTimes 1 body place w ↔ body.Matches place w := by
  simp [matchesTimes_succ_iff]

/-- A pattern that takes nothing takes nothing in any number of turns. -/
theorem MatchesTimes.eq_nil
    (hnothing : ∀ place u, body.Matches place u → u = [])
    (htimes : MatchesTimes n body place w) : w = [] := by
  induction n generalizing place w with
  | zero => exact matchesTimes_zero_iff.mp htimes
  | succ n ih =>
      obtain ⟨u, v, rfl, hfirst, hrest⟩ := matchesTimes_succ_iff.mp htimes
      rw [hnothing place u hfirst, ih hrest, List.append_nil]

theorem MatchesTimes.mono
    (hle : ∀ place u, q.Matches place u → p.Matches place u)
    (htimes : MatchesTimes n q place w) : MatchesTimes n p place w := by
  induction n generalizing place w with
  | zero => simpa using htimes
  | succ n ih =>
      obtain ⟨u, v, rfl, hfirst, hrest⟩ := matchesTimes_succ_iff.mp htimes
      exact .succ (hle place u hfirst) (ih hrest)

/-- What takes the empty text takes it in any number of turns. -/
theorem matchesTimes_of_nil (hnil : body.Matches place []) :
    MatchesTimes n body place [] := by
  induction n with
  | zero => exact .zero body place
  | succ n ih => exact .succ hnil ih

end Times

/-- The patterns take the text one behind the other. -/
inductive MatchesEach : List Pattern → Place → List Char → Prop
  | nil (place : Place) : MatchesEach [] place []
  | cons {p : Pattern} {ps : List Pattern} {place : Place} {u v : List Char}
      (hfirst : p.Matches place u) (hrest : MatchesEach ps (place.skip u) v) :
      MatchesEach (p :: ps) place (u ++ v)

section Lists

@[simp] theorem matchesEach_nil_iff : MatchesEach [] place w ↔ w = [] := by
  constructor
  · rintro ⟨⟩
    rfl
  · rintro rfl
    exact .nil place

theorem matchesEach_cons_iff : MatchesEach (p :: ps) place w ↔
    ∃ u v, w = u ++ v ∧ p.Matches place u ∧
      MatchesEach ps (place.skip u) v := by
  constructor
  · rintro ⟨⟩
    exact ⟨_, _, rfl, ‹_›, ‹_›⟩
  · rintro ⟨u, v, rfl, hfirst, hrest⟩
    exact .cons hfirst hrest

@[simp] theorem matchesEach_singleton_iff :
    MatchesEach [p] place w ↔ p.Matches place w := by
  simp [matchesEach_cons_iff]

theorem matchesEach_append_iff : MatchesEach (ps ++ qs) place w ↔
    ∃ u v, w = u ++ v ∧ MatchesEach ps place u ∧
      MatchesEach qs (place.skip u) v := by
  induction ps generalizing place w with
  | nil =>
      constructor
      · exact fun hqs => ⟨[], w, rfl, .nil place, hqs⟩
      · rintro ⟨u, v, rfl, hnil, hqs⟩
        cases matchesEach_nil_iff.mp hnil
        exact hqs
  | cons p ps ih =>
      rw [List.cons_append]
      constructor
      · intro hall
        obtain ⟨t, _, rfl, hfirst, hrest⟩ := matchesEach_cons_iff.mp hall
        obtain ⟨u, v, rfl, hps, hqs⟩ := ih.mp hrest
        exact ⟨t ++ u, v, (List.append_assoc ..).symm, .cons hfirst hps,
          by simpa using hqs⟩
      · rintro ⟨_, v, rfl, hps, hqs⟩
        obtain ⟨t, u, rfl, hfirst, hrest⟩ := matchesEach_cons_iff.mp hps
        rw [List.append_assoc]
        exact .cons hfirst (ih.mpr ⟨u, v, rfl, hrest, by simpa using hqs⟩)

theorem matchesTimes_iff (n : Nat) : MatchesTimes n body place w ↔
    MatchesEach (List.replicate n body) place w := by
  induction n generalizing place w with
  | zero => simp
  | succ n ih =>
      rw [matchesTimes_succ_iff, List.replicate_succ, matchesEach_cons_iff]
      simp only [ih]

/-- So many turns and then some more are all of them together. -/
theorem matchesTimes_add_iff : MatchesTimes (k + n) body place w ↔
    ∃ u v, w = u ++ v ∧ MatchesTimes k body place u ∧
      MatchesTimes n body (place.skip u) v := by
  simp only [matchesTimes_iff, ← List.replicate_append_replicate,
    matchesEach_append_iff]

/-- A sequence takes what its items take one behind the other. -/
theorem matchesEach_items_iff (p : Pattern) :
    MatchesEach p.items place w ↔ p.Matches place w := by
  induction p generalizing place w with
  | empty => simp [items]
  | sequence first second hfirst hsecond =>
      rw [items, matchesEach_append_iff, matches_sequence_iff]
      simp only [hfirst, hsecond]
  | _ => exact matchesEach_singleton_iff

theorem matches_ofItems_iff (ps : List Pattern) :
    (ofItems ps).Matches place w ↔ MatchesEach ps place w := by
  fun_induction ofItems ps generalizing place w with
  | case1 => simp
  | case2 p => simp
  | case3 p rest hrest ih =>
      rw [matches_sequence_iff, matchesEach_cons_iff]
      simp only [ih]

/-- A choice takes what one of its branches takes. -/
theorem exists_branches_iff (p : Pattern) :
    (∃ q ∈ p.branches, q.Matches place w) ↔ p.Matches place w := by
  induction p with
  | choice first second hfirst hsecond =>
      rw [branches, matches_choice_iff, ← hfirst, ← hsecond]
      simp only [List.mem_append, or_and_right, exists_or]
  | _ => simp [branches]

theorem matches_ofBranches_iff (ps : List Pattern) :
    (ofBranches ps).Matches place w ↔ ∃ p ∈ ps, p.Matches place w := by
  fun_induction ofBranches ps with
  | case1 => simp [CharSet.empty, CharSet.contains]
  | case2 p => simp
  | case3 p rest hrest ih => simp [ih]

end Lists

end Pattern

end Specimen.Regex
