/-
Chains of restrictions.  A chain of fewer steps than definitions are looked up
resolves to its builtin kind with the facets of all its steps taken together:
of every facet the declaration nearest to the derived end counts.  Where every
step is no wider than those that it restricts, the nearest declaration is also
the narrowest.
-/
import Specimen.Schema.Model

namespace Specimen

namespace Facets

/-- The facets of the steps of a chain taken together, the most derived step
first. -/
def together (steps : List Facets) : Facets :=
  steps.foldl inherit none

theorem none_inherit (f : Facets) : none.inherit f = f := by
  cases f
  rfl

theorem lower_inherit (derived base : Facets) :
    (derived.inherit base).lower = derived.lower.or base.lower := by
  cases hinclusive : derived.minInclusive <;>
    cases hexclusive : derived.minExclusive <;>
    simp [lower, inherit, hinclusive, hexclusive]

theorem upper_inherit (derived base : Facets) :
    (derived.inherit base).upper = derived.upper.or base.upper := by
  cases hinclusive : derived.maxInclusive <;>
    cases hexclusive : derived.maxExclusive <;>
    simp [upper, inherit, hinclusive, hexclusive]

section View

variable {α : Type} {view : Facets → Option α}

theorem view_foldl_inherit
    (hinherit : ∀ derived base,
      view (derived.inherit base) = (view derived).or (view base))
    (steps : List Facets) (facets : Facets) :
    view (steps.foldl inherit facets) =
      (view facets).or (steps.findSome? view) := by
  induction steps generalizing facets with
  | nil => simp
  | cons step steps ih =>
      rw [List.foldl_cons, ih, hinherit, Option.or_assoc, List.findSome?_cons]
      cases view step <;> rfl

/-- What a step takes from its base where it has nothing of its own is found at
the first step that has it. -/
theorem view_together (hnone : view none = .none)
    (hinherit : ∀ derived base,
      view (derived.inherit base) = (view derived).or (view base))
    (steps : List Facets) : view (together steps) = steps.findSome? view := by
  rw [together, view_foldl_inherit hinherit, hnone, Option.none_or]

/-- The first of several declarations is the narrowest if each is no wider than
those behind it. -/
theorem exists_findSome?_of_pairwise {narrower : α → α → Prop}
    (hrefl : ∀ a, narrower a a) {steps : List Facets}
    (hsteps : steps.Pairwise fun derived base =>
      ∀ a ∈ view derived, ∀ b ∈ view base, narrower a b)
    {step : Facets} (hstep : step ∈ steps) {b : α} (hb : view step = some b) :
    ∃ a, steps.findSome? view = some a ∧ narrower a b := by
  induction steps with
  | nil => contradiction
  | cons derived steps ih =>
      obtain ⟨hderived, hsteps⟩ := List.pairwise_cons.mp hsteps
      rw [List.findSome?_cons]
      cases hview : view derived with
      | none =>
          rcases List.mem_cons.mp hstep with rfl | hstep
          · rw [hview] at hb
            contradiction
          · exact ih hsteps hstep
      | some a =>
          refine ⟨a, rfl, ?_⟩
          rcases List.mem_cons.mp hstep with rfl | hstep
          · rw [Option.some.inj (hview.symm.trans hb)]
            exact hrefl b
          · exact hderived step hstep a hview b hb

end View

/-- The enumeration of the most derived step that has one. -/
def nearestEnumeration (steps : List Facets) : List String :=
  ((steps.map enumeration).find? (· ≠ [])).getD []

theorem nearestEnumeration_cons (step : Facets) (steps : List Facets) :
    nearestEnumeration (step :: steps) =
      if step.enumeration = [] then nearestEnumeration steps
      else step.enumeration := by
  by_cases hempty : step.enumeration = []
  · simp [nearestEnumeration, hempty]
  · simp [nearestEnumeration, hempty]

theorem enumeration_foldl_inherit (steps : List Facets) (facets : Facets) :
    (steps.foldl inherit facets).enumeration =
      nearestEnumeration (facets :: steps) := by
  induction steps generalizing facets with
  | nil => by_cases hempty : facets.enumeration = [] <;>
      simp [nearestEnumeration, hempty]
  | cons step steps ih =>
      rw [List.foldl_cons, ih, nearestEnumeration_cons,
        nearestEnumeration_cons facets, nearestEnumeration_cons step]
      by_cases hempty : facets.enumeration = []
      · simp [inherit, hempty]
      · simp [inherit, hempty]

theorem enumeration_together (steps : List Facets) :
    (together steps).enumeration = nearestEnumeration steps :=
  enumeration_foldl_inherit steps none

theorem nearestEnumeration_eq_nil_iff {steps : List Facets} :
    nearestEnumeration steps = [] ↔ ∀ step ∈ steps, step.enumeration = [] := by
  induction steps with
  | nil => simp [nearestEnumeration]
  | cons step steps ih =>
      rw [nearestEnumeration_cons, List.forall_mem_cons]
      by_cases hempty : step.enumeration = []
      · rw [if_pos hempty, ih]
        exact (and_iff_right hempty).symm
      · simp [hempty]

theorem patterns_together {steps : List Facets}
    (hsteps : ∀ step ∈ steps, step.patterns = []) :
    (together steps).patterns = [] := by
  have hfold : ∀ facets : Facets, facets.patterns = [] →
      (steps.foldl inherit facets).patterns = [] := by
    induction steps with
    | nil => exact fun _ hfacets => hfacets
    | cons step steps ih =>
        intro facets hfacets
        obtain ⟨hstep, hsteps⟩ := List.forall_mem_cons.mp hsteps
        exact ih hsteps _ (by simp [inherit, hfacets, hstep])
  exact hfold none rfl

end Facets

namespace Model

variable {m : Model} {kind : Kind} {id : TypeId} {steps : List Facets}

/-- The type with the number restricts the builtin kind in some steps, the most
derived one first. -/
inductive Restricts (m : Model) (kind : Kind) : TypeId → List Facets → Prop
    where
  | builtin {id : TypeId} (hget : m.get id = .builtin kind) :
    Restricts m kind id []
  | step {id base : TypeId} {facets : Facets} {steps : List Facets}
    (hget : m.get id = .restriction base facets)
    (hbase : Restricts m kind base steps) :
    Restricts m kind id (facets :: steps)

theorem Restricts.chain_eq (hchain : m.Restricts kind id steps)
    (node : String) {left : Nat} (hleft : steps.length < left)
    (facets : Facets) :
    m.chain node left facets id =
      .ok ⟨kind, steps.foldl Facets.inherit facets⟩ := by
  induction hchain generalizing left facets with
  | builtin hget =>
      cases left with
      | zero => contradiction
      | succ left => simp [chain, hget]
  | step hget hbase ih =>
      cases left with
      | zero => contradiction
      | succ left =>
          simp only [chain, hget]
          exact ih (Nat.lt_of_succ_lt_succ hleft) _

/-- A chain of restrictions resolves to its builtin kind with its facets taken
together. -/
theorem Restricts.resolve_eq (hchain : m.Restricts kind id steps)
    (hlength : steps.length < chainLimit) (node : String) :
    m.resolve id node = .ok (some ⟨kind, Facets.together steps⟩) := by
  rw [resolve, hchain.chain_eq node hlength Facets.none]
  cases hchain with
  | builtin hget => rw [hget]; rfl
  | step hget => rw [hget]; rfl

end Model

end Specimen
