/-
The texts that are drawn for a pattern belong to its language.  Repetitions
inside one another draw the product of their counts, and that many turns of the
innermost pattern are divided among them again.
-/
import Specimen.Proofs.DrawRange
import Specimen.Proofs.NormalForms
import Specimen.Regex.Sample

namespace Specimen

theorem Draw.fair_lt {range : Nat} (hrange : 0 < range) (s : Stream) :
    (fair range s).1 < range := by
  have hattempt (left : Nat) (s : Stream) :
      (fair.attempt range left s).1 < range := by
    induction left generalizing s with
    | zero => exact high_lt (word s).1.toNat_lt hrange
    | succ left ih =>
        change ((if (word s).1.toNat * range % Width.word.size ≥ _
          then (pure _ : Draw Nat)
          else fair.attempt range left) (word s).2).1 < range
        split
        · exact high_lt (word s).1.toNat_lt hrange
        · exact ih (word s).2
  exact hattempt fairAttempts s

namespace Regex

/-- The number is a product of counts, one of each repetition. -/
inductive Span.Product : List Span → Nat → Prop
  | nil : Product [] 1
  | cons {span : Span} {spans : List Span} {count n : Nat}
      (hleast : span.least ≤ count) (hmost : count ≤ span.most)
      (hrest : Product spans n) : Product (span :: spans) (count * n)

/-- The counts of every repetition are in order. -/
def Span.InOrder (spans : List Span) : Prop :=
  ∀ span ∈ spans, span.least ≤ span.most

variable {p body : Pattern} {capture : Option Capture} {greedy : Bool}
  {least count n : Nat} {most : Option Nat} {spans : List Span} {span : Span}
  {one : Draw (List Char)} {w : List Char}

theorem Span.draw_mem (hle : span.least ≤ span.most) (s : Stream) :
    span.least ≤ (span.draw s).1 ∧ (span.draw s).1 ≤ span.most := by
  unfold Span.draw
  split
  · exact ⟨Nat.le_refl _, hle⟩
  · have hrange : 0 < span.most - span.least + 1 := Nat.succ_pos _
    have hfair := Draw.fair_lt hrange s
    change span.least ≤ span.least + (Draw.fair _ s).1 ∧
      span.least + (Draw.fair _ s).1 ≤ span.most
    omega

theorem Span.drawProduct_product (hspans : Span.InOrder spans) (s : Stream) :
    Span.Product spans (Span.drawProduct spans s).1 := by
  induction spans generalizing s with
  | nil => exact .nil
  | cons span spans ih =>
      obtain ⟨hspan, hrest⟩ := List.forall_mem_cons.mp hspans
      obtain ⟨hleast, hmost⟩ := span.draw_mem hspan s
      exact .cons hleast hmost (ih hrest _)

namespace Pattern

/-- Every text that is drawn is taken by the pattern, wherever it stands. -/
def Draws (p : Pattern) (one : Draw (List Char)) : Prop :=
  ∀ s place, p.Matches place (one s).1

/-- The text is as many turns of the pattern as the repetitions around it ask
for, wherever it stands. -/
def Repeats (p : Pattern) (spans : List Span) (w : List Char) : Prop :=
  ∃ n, Span.Product spans n ∧ ∀ place, MatchesTimes n p place w

/-- The sampler draws texts for any repetitions around the pattern, and its
branches are draws for the pattern alone. -/
structure Samples (p : Pattern) (sampler : Sampler) : Prop where
  under : ∀ spans, Span.InOrder spans → ∀ s,
    p.Repeats spans (sampler.under spans s).1
  branches : ∀ branch ∈ sampler.branches, p.Draws branch
  nonempty : sampler.branches ≠ []

theorem repeats_nil_iff :
    p.Repeats [] w ↔ ∀ place, p.Matches place w := by
  constructor
  · rintro ⟨n, ⟨⟩, htimes⟩ place
    exact matchesTimes_one_iff.mp (htimes place)
  · exact fun hmatch => ⟨1, .nil, fun place =>
      matchesTimes_one_iff.mpr (hmatch place)⟩

/-- The turns of a repetition are counted together with those of the repetitions
around it. -/
theorem matchesTimes_repeated (hleast : least ≤ count)
    (hmost : ∀ m ∈ most, count ≤ m) {place : Place}
    (htimes : MatchesTimes (count * n) body place w) :
    MatchesTimes n (repeated least most greedy body) place w := by
  induction n generalizing place w with
  | zero => simpa using htimes
  | succ n ih =>
      rw [Nat.mul_succ, Nat.add_comm] at htimes
      obtain ⟨u, v, rfl, hfirst, hrest⟩ := matchesTimes_add_iff.mp htimes
      exact .succ (.repeated hleast hmost hfirst) (ih hrest)

theorem Repeats.repeated (hrepeats :
      body.Repeats (⟨least, most.getD (least + openExcess)⟩ :: spans) w) :
    (repeated least most greedy body).Repeats spans w := by
  obtain ⟨n, hproduct, htimes⟩ := hrepeats
  cases hproduct with
  | cons hleast hmost hrest =>
      refine ⟨_, hrest, fun place => ?_⟩
      refine matchesTimes_repeated hleast ?_ (htimes place)
      rintro m ⟨⟩
      exact hmost

theorem Repeats.group (hrepeats : body.Repeats spans w) :
    (group capture body).Repeats spans w := by
  obtain ⟨n, hproduct, htimes⟩ := hrepeats
  exact ⟨n, hproduct, fun place => (htimes place).mono fun _ _ => .group⟩

theorem Draws.times (hone : p.Draws one) (n : Nat) (s : Stream)
    (place : Place) :
    MatchesTimes n p place (Draw.times one n s).1.flatten := by
  induction n generalizing s place with
  | zero => exact .zero p place
  | succ n ih => exact .succ (hone s place) (ih _ _)

theorem Draws.repeating (hone : p.Draws one) (hspans : Span.InOrder spans)
    (s : Stream) : p.Repeats spans (Sampler.repeating one spans s).1 :=
  ⟨_, Span.drawProduct_product hspans s, hone.times _ _⟩

theorem samples_ofUnder {under : List Span → Draw (List Char)}
    (hunder : ∀ spans, Span.InOrder spans → ∀ s,
      p.Repeats spans (under spans s).1) :
    p.Samples (.ofUnder under) := by
  refine ⟨hunder, ?_, by simp [Sampler.ofUnder]⟩
  intro branch hbranch s
  cases List.mem_singleton.mp hbranch
  exact repeats_nil_iff.mp (hunder [] nofun s)

theorem Draws.samples (hone : p.Draws one) : p.Samples (.ofOne one) :=
  samples_ofUnder fun _ hspans s => hone.repeating hspans s

theorem Samples.draws {sampler : Sampler} (hsamples : p.Samples sampler) :
    p.Draws (sampler.under []) :=
  fun s => repeats_nil_iff.mp (hsamples.under [] nofun s)

/-- One of several draws is taken if all of them are. -/
theorem draws_oneOf {draws : List (Draw (List Char))} (hne : draws ≠ [])
    (hdraws : ∀ d ∈ draws, p.Draws d) : p.Draws (Sampler.oneOf draws) := by
  intro s place
  have hfair := Draw.fair_lt (List.length_pos_iff.mpr hne) s
  change p.Matches place
    ((draws[(Draw.fair draws.length s).1]?.getD (return [])) _).1
  rw [List.getElem?_eq_getElem hfair, Option.getD_some]
  exact hdraws _ (List.getElem_mem hfair) _ place

theorem draws_memberOf {set : CharSet} (hset : set.Valid)
    (hranges : set.ranges ≠ []) :
    (chars set).Draws (Sampler.memberOf set) := by
  intro s place
  have hfair := Draw.fair_lt (CharSet.size_pos hset hranges) s
  obtain ⟨c, hmember⟩ := CharSet.exists_member? hset hfair
  change (chars set).Matches place (set.member? (Draw.fair set.size s).1).toList
  rw [hmember]
  exact .chars place (CharSet.contains_of_member? hmember)

/-- A pattern that nothing stands against is sampled. -/
theorem Proper.samples (hp : p.Proper) (hobstacle : p.obstacle? = none) :
    p.Samples p.sampler := by
  induction p with
  | empty => exact Draws.samples fun _ place => .empty place
  | text cs => exact Draws.samples fun _ place => .text place cs
  | chars set =>
      have hranges : set.ranges ≠ [] := by
        simpa [obstacle?] using hobstacle
      exact (draws_memberOf hp hranges).samples
  | look condition => cases hobstacle
  | repeated least most greedy body ih =>
      refine samples_ofUnder fun spans hspans s => ?_
      have hspan : least ≤ most.getD (least + openExcess) := by
        cases most with
        | none => exact Nat.le_add_right _ _
        | some m => exact hp.1 m rfl
      have hspans : Span.InOrder
          (⟨least, most.getD (least + openExcess)⟩ :: spans) :=
        List.forall_mem_cons.mpr ⟨hspan, hspans⟩
      exact ((ih hp.2 hobstacle).under _ hspans s).repeated
  | group capture body ih =>
      obtain ⟨hunder, hbranches, hne⟩ := ih hp hobstacle
      exact ⟨fun spans hspans s => (hunder spans hspans s).group,
        fun branch hbranch s place => .group (hbranches branch hbranch s place),
        hne⟩
  | sequence first second hfirst hsecond =>
      obtain ⟨hleft, hright⟩ := Option.or_eq_none_iff.mp hobstacle
      have hu := (hfirst hp.1 hleft).draws
      have hv := (hsecond hp.2 hright).draws
      exact Draws.samples fun s place =>
        .sequence (hu s place) (hv (first.sampler.under [] s).2 _)
  | choice first second hfirst hsecond =>
      obtain ⟨hleft, hright⟩ := Option.or_eq_none_iff.mp hobstacle
      have hu := hfirst hp.1 hleft
      have hv := hsecond hp.2 hright
      have hbranches : ∀ branch ∈ first.sampler.branches ++
          second.sampler.branches, (choice first second).Draws branch :=
        List.forall_mem_append.mpr
          ⟨fun branch hbranch s place =>
            .inFirst (hu.branches branch hbranch s place),
          fun branch hbranch s place =>
            .inSecond (hv.branches branch hbranch s place)⟩
      have hne : first.sampler.branches ++ second.sampler.branches ≠ [] := by
        simp [hu.nonempty]
      exact ⟨fun spans hspans s =>
        (draws_oneOf hne hbranches).repeating hspans s, hbranches, hne⟩

end Pattern

/-- A text that is drawn for an expression belongs to its language as a
whole. -/
theorem accepts_of_sample [Package] {expression text : String} {s t : Stream}
    (hsample : sample expression s = (.ok text, t)) :
    ∃ pattern, Pattern.read false expression = some pattern ∧
      pattern.Accepts text.toList := by
  cases hread : Pattern.read false expression with
  | none =>
      simp only [sample, hread] at hsample
      cases hsample
  | some pattern =>
      have hproper := Pattern.proper_of_read hread
      simp only [sample, hread] at hsample
      cases hobstacle : pattern.normal.obstacle? with
      | some reason =>
          simp only [hobstacle] at hsample
          cases hsample
      | none =>
          have hdraws := (hproper.normal.samples hobstacle).draws
          simp only [hobstacle] at hsample
          cases hsample
          refine ⟨pattern, rfl, hproper.matches_of_normal ?_⟩
          rw [String.toList_ofList]
          exact hdraws s _

end Regex

end Specimen
