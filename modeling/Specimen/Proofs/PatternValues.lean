/-
The values of types with patterns.  A text of one of the patterns is drawn, and
then its runs of blanks become single spaces.  What is left is a text of the
pattern itself where the drawn text has no other blanks than single spaces; a
text with two spaces in a row, or with a tab, is not left as it was drawn.
-/
import Mathlib.Control.Monad.Basic
import Specimen.Proofs.SampledTexts
import Specimen.Proofs.Trimming
import Specimen.Proofs.UnruledValues

namespace Specimen

namespace Text

/-- The second text has a space for every run of blanks of the first one, and
otherwise the same characters. -/
inductive Squeezes : List Char → List Char → Prop
  | nil : Squeezes [] []
  | solid {c : Char} {u v : List Char} (hc : isBlank c = false)
      (hrest : Squeezes u v) : Squeezes (c :: u) (c :: v)
  | run {run u v : List Char} (hne : run ≠ []) (hrun : Blank run)
      (hbehind : ∀ c ∈ u.head?, isBlank c = false) (hrest : Squeezes u v) :
      Squeezes (run ++ u) (' ' :: v)

/-- The text has no blanks but single spaces. -/
structure SingleSpaced (w : List Char) : Prop where
  eq_space : ∀ c ∈ w, isBlank c = true → c = ' '
  apart : ¬ [' ', ' '] <:+: w

variable {c : Char} {u v w : List Char}

/-- One more blank before a run makes no difference. -/
theorem Squeezes.blank_cons (hc : isBlank c = true)
    (hu : ∀ d ∈ u.head?, isBlank d = true) (hne : u ≠ [])
    (hsqueezes : Squeezes u v) : Squeezes (c :: u) v := by
  cases hsqueezes with
  | nil => exact absurd rfl hne
  | solid hsolid hrest => simp [hsolid] at hu
  | @run run u v hrunne hrun hbehind hrest =>
      have hlonger : Blank (c :: run) := List.forall_mem_cons.mpr ⟨hc, hrun⟩
      exact .run (List.cons_ne_nil c run) hlonger hbehind hrest

/-- Squeezing does to runs of blanks what it should. -/
theorem squeezes_squeeze (w : List Char) : Squeezes w (squeeze w) := by
  fun_induction squeeze w with
  | case1 => exact .nil
  | case2 c hc =>
      have hrun : Blank [c] := by simpa [Blank] using hc
      exact .run (List.cons_ne_nil c []) hrun (by simp) .nil
  | case3 c hc d rest hd ih =>
      exact ih.blank_cons hc (by simpa using hd) (List.cons_ne_nil d rest)
  | case4 c hc d rest hd ih =>
      have hrun : Blank [c] := by simpa [Blank] using hc
      exact .run (List.cons_ne_nil c []) hrun (by simpa using hd) ih
  | case5 c rest hc ih => exact .solid (by simpa using hc) ih

theorem SingleSpaced.tail (hw : SingleSpaced (c :: w)) : SingleSpaced w where
  eq_space d hd := hw.eq_space d (List.mem_cons_of_mem c hd)
  apart hspaces := hw.apart (hspaces.trans (List.suffix_cons c w).isInfix)

/-- Squeezing leaves a text without other blanks than single spaces as it is. -/
theorem SingleSpaced.squeeze_eq (hw : SingleSpaced w) : squeeze w = w := by
  fun_induction squeeze w with
  | case1 => rfl
  | case2 c hc => rw [hw.eq_space c List.mem_cons_self hc]
  | case3 c hc d rest hd ih =>
      have hfirst := hw.eq_space c List.mem_cons_self hc
      have hsecond := hw.tail.eq_space d List.mem_cons_self hd
      subst hfirst hsecond
      exact absurd (List.prefix_append [' ', ' '] rest).isInfix hw.apart
  | case4 c hc d rest hd ih =>
      rw [hw.eq_space c List.mem_cons_self hc, ih hw.tail]
  | case5 c rest hc ih => rw [ih hw.tail]

theorem Squeezes.eq_of_not_mem (hsqueezes : Squeezes u v) (hv : ' ' ∉ v) :
    u = v := by
  induction hsqueezes with
  | nil => rfl
  | solid hc hrest ih => rw [ih fun hmem => hv (List.mem_cons_of_mem _ hmem)]
  | run hne hrun hbehind hrest ih => exact absurd List.mem_cons_self hv

end Text

namespace Value

open Regex (Pattern)

variable {type : SimpleType} {node : String} {settings : Settings}
  {files : Files}

theorem exists_outcome_warn {ε : Type} (warnings : List Warning) (s : Session) :
    ∃ t, outcome (warnings.forM Step.warn : Step ε Unit) s = (.ok (), t) := by
  induction warnings generalizing s with
  | nil => exact ⟨s, rfl⟩
  | cons warning warnings ih => exact ih (s.warn warning)

theorem outcome_attempt_adapt {ε ε' α : Type} {d : ExceptT ε Draw α}
    {s : Session} {result : Except ε α} {stream : Stream}
    (hdrawn : d s.stream = (result, stream)) (wrap : ε → ε') :
    outcome (Step.attempt (ExceptT.adapt wrap d)) s =
      (result.mapError wrap, { s with stream }) := by
  change ((d s.stream).1.mapError wrap, { s with stream := (d s.stream).2 }) = _
  rw [hdrawn]

/-- Without a rule for the node and an enumeration, the patterns decide. -/
theorem outcome_ofType_of_patterns [Regex.Package]
    (hrules : ∀ rule ∈ settings.rules, rule.appliesTo node = false)
    (hmembers : type.facets.enumeration = [])
    (hpatterns : type.facets.patterns ≠ []) (s : Session) :
    outcome (ofType type node settings files) s =
      outcome (ofPattern node type.facets) s := by
  have hdrawn : Draw.choose type.facets.enumeration s.stream =
      (none, s.stream) := by
    rw [hmembers, Draw.choose_nil]
  rw [ofType, outcome_bind_of_ok (outcome_ruledValue_of_none hrules s)]
  rw [outcome_bind_of_ok (outcome_draw hdrawn)]
  simp only [List.isEmpty_iff, if_neg hpatterns]

/-- What a pattern gives is a text of its language, squeezed. -/
theorem exists_outcome_ofPattern [Regex.Package] (node : String)
    {facets : Facets} (hpatterns : facets.patterns ≠ []) (s : Session) :
    ∃ p ∈ facets.patterns, ∃ t,
      (∃ reason, outcome (ofPattern node facets) s =
        (.error (.invalidPattern p node reason), t)) ∨
      ∃ pattern w,
        outcome (ofPattern node facets) s =
          (.ok (String.ofList (Text.squeeze w)), t) ∧
        Pattern.read false (String.ofList (expressionOf 0 p.toList)) =
          some pattern ∧ pattern.Accepts w := by
  obtain ⟨p, hp, hchoose⟩ := Draw.exists_choose hpatterns s.stream
  rcases hdrawn : Draw.choose facets.patterns s.stream with ⟨chosen, stream⟩
  rw [hdrawn] at hchoose
  subst hchoose
  refine ⟨p, hp, ?_⟩
  rw [ofPattern, outcome_bind_of_ok (outcome_draw hdrawn)]
  rcases hsample : Regex.sample (String.ofList (expressionOf 0 p.toList))
    stream with ⟨result, stream'⟩
  have hattempt := @outcome_attempt_adapt Regex.SampleError ValueError String
    _ { s with stream } result stream' hsample (.invalidPattern p node)
  cases result with
  | error reason =>
      refine ⟨{ s with stream := stream' }, .inl ⟨reason, ?_⟩⟩
      exact outcome_bind_of_error hattempt
  | ok drawn =>
      obtain ⟨pattern, hread, haccepts⟩ := Regex.accepts_of_sample hsample
      obtain ⟨t, hwarned⟩ := @exists_outcome_warn ValueError
        (lengthWarnings node (String.ofList (Text.squeeze drawn.toList)) facets)
        { s with stream := stream' }
      refine ⟨t, .inr ⟨pattern, drawn.toList, ?_, hread, haccepts⟩⟩
      refine (outcome_bind_of_ok hattempt).trans ?_
      rw [outcome_bind_of_ok hwarned, outcome_pure]

/-- A type with patterns gets a text of one of them with its runs of blanks
shortened, or the pattern has none to draw. -/
theorem ofType?_pattern [Regex.Package]
    (hrules : ∀ rule ∈ settings.rules, rule.appliesTo node = false)
    (hmembers : type.facets.enumeration = [])
    (hpatterns : type.facets.patterns ≠ []) (s : Session) :
    ∃ p ∈ type.facets.patterns, ∃ t,
      (∃ reason, outcome (ofType? (some type) node settings files) s =
        (.error (.invalidPattern p node reason), t)) ∨
      ∃ pattern w v,
        outcome (ofType? (some type) node settings files) s =
          (.ok (some v), t) ∧
        Pattern.read false (String.ofList (expressionOf 0 p.toList)) =
          some pattern ∧
        pattern.Accepts w ∧ Text.Squeezes w v.toList ∧
        (Text.SingleSpaced w ∨ ' ' ∉ v.toList → pattern.Accepts v.toList) := by
  obtain ⟨p, hp, t, hvalue⟩ := exists_outcome_ofPattern node hpatterns s
  refine ⟨p, hp, t, ?_⟩
  rw [ofType?, outcome_bind_pure,
    outcome_ofType_of_patterns hrules hmembers hpatterns]
  rcases hvalue with ⟨reason, hvalue⟩ | ⟨pattern, w, hvalue, hread, haccepts⟩
  · left
    exact ⟨reason, by rw [hvalue]; rfl⟩
  · right
    refine ⟨pattern, w, _, by rw [hvalue]; rfl, hread, haccepts, ?_⟩
    rw [String.toList_ofList]
    refine ⟨Text.squeezes_squeeze w, ?_⟩
    rintro (hspaced | hspace)
    · rwa [hspaced.squeeze_eq]
    · rwa [← (Text.squeezes_squeeze w).eq_of_not_mem hspace]

namespace PatternWitness

/-- The signs of a coach: a class and one cross or more. -/
def coach : SimpleType where
  kind := .string
  facets := { patterns := ["(AB|C)-x+"] }

/-- Two letters with two spaces between them. -/
def gap : SimpleType where
  kind := .string
  facets := { patterns := ["a  b"] }

theorem coach_sampled :
    (outcome (ofType? (some coach) "coach" {} {}) (Session.ofSeed 1)).1 =
        .ok (some "AB-xxxx") ∧
      ∃ pattern, Pattern.read false "(AB|C)-x+" = some pattern ∧
        pattern.Accepts "AB-xxxx".toList := by
  have hvalue : (outcome (ofType? (some coach) "coach" {} {})
      (Session.ofSeed 1)).1 = .ok (some "AB-xxxx") := by
    decide +kernel
  refine ⟨hvalue, ?_⟩
  obtain ⟨p, hp, t, ⟨reason, herror⟩ | ⟨pattern, w, v, hok, hread, -, -, hv⟩⟩ :=
    @ofType?_pattern coach "coach" {} {} _ (by decide) rfl (by decide)
      (Session.ofSeed 1)
  · rw [herror] at hvalue
    cases hvalue
  · rw [hok] at hvalue
    cases hvalue
    cases List.mem_singleton.mp hp
    exact ⟨pattern, hread, hv (.inr (by decide))⟩

/-- The two spaces of the pattern become one, and the value is none of its
texts. -/
theorem gap_closed :
    (outcome (ofType? (some gap) "Value" {} {}) (Session.ofSeed 1)).1 =
        .ok (some "a b") ∧
      ∃ pattern, Pattern.read false "a  b" = some pattern ∧
        ¬ pattern.Accepts "a b".toList := by
  have hvalue : (outcome (ofType? (some gap) "Value" {} {})
      (Session.ofSeed 1)).1 = .ok (some "a b") := by
    decide +kernel
  have hread : Pattern.read false "a  b" =
      some (.ofItems [.text ['a'], .text [' '], .text [' '], .text ['b']]) := by
    decide +kernel
  refine ⟨hvalue, _, hread, fun haccepts => ?_⟩
  simp [Pattern.Accepts, Regex.Pattern.matches_ofItems_iff,
    Regex.Pattern.matchesEach_text_cons_iff] at haccepts

end PatternWitness

end Value

end Specimen
