/-
The value of a node that no rule is about.  A member of the enumeration goes
first; without enumeration and patterns the kind of the type decides.
-/
import Specimen.Proofs.DrawRange
import Specimen.Proofs.Steps
import Specimen.Value.Node

namespace Specimen

namespace Value

variable {type : SimpleType} {node : String} {settings : Settings}
  {files : Files}

theorem outcome_ruledValue_of_none [Regex.Package]
    (hrules : ∀ rule ∈ settings.rules, rule.appliesTo node = false)
    (s : Session) :
    outcome (ExceptT.adapt ValueError.template
      (Settings.ruledValue files settings.rules node)) s = (.ok none, s) := by
  have hfind : settings.rules.find? (·.appliesTo node) = none := by
    simpa using hrules
  simp only [Settings.ruledValue, Settings.templateFor?, hfind]
  rfl

theorem outcome_draw {ε α : Type} {d : Draw α} {s : Session} {a : α}
    {stream : Stream} (hdrawn : d s.stream = (a, stream)) :
    outcome (Step.draw d : Step ε α) s = (.ok a, { s with stream }) := by
  simp only [outcome, Step.draw, hdrawn]

/-- Without a rule for the node a member of the enumeration is its value. -/
theorem exists_ofType_mem [Regex.Package]
    (hrules : ∀ rule ∈ settings.rules, rule.appliesTo node = false)
    (hmembers : type.facets.enumeration ≠ []) (s : Session) :
    ∃ text ∈ type.facets.enumeration, ∃ t,
      outcome (ofType type node settings files) s = (.ok text, t) := by
  obtain ⟨text, htext, hchoose⟩ := Draw.exists_choose hmembers s.stream
  rcases hdrawn : Draw.choose type.facets.enumeration s.stream with
    ⟨drawn, stream⟩
  rw [hdrawn] at hchoose
  subst hchoose
  refine ⟨text, htext, { s with stream }, ?_⟩
  rw [ofType, outcome_bind_of_ok (outcome_ruledValue_of_none hrules s)]
  rw [outcome_bind_of_ok (outcome_draw hdrawn)]
  exact outcome_pure _ _

/-- Without a rule for the node, an enumeration and patterns, the kind of the
type decides. -/
theorem outcome_ofType_of_kind [Regex.Package]
    (hrules : ∀ rule ∈ settings.rules, rule.appliesTo node = false)
    (hmembers : type.facets.enumeration = [])
    (hpatterns : type.facets.patterns = []) (s : Session) :
    outcome (ofType type node settings files) s =
      outcome (ofKind type node settings.numbers) s := by
  have hdrawn : Draw.choose type.facets.enumeration s.stream =
      (none, s.stream) := by
    rw [hmembers, Draw.choose_nil]
  rw [ofType, outcome_bind_of_ok (outcome_ruledValue_of_none hrules s)]
  rw [outcome_bind_of_ok (outcome_draw hdrawn)]
  simp only [hpatterns, List.isEmpty_nil, if_true]

/-- Where the kind of the type draws a text, that text is the value. -/
theorem outcome_ofType?_of_draw [Regex.Package]
    (hrules : ∀ rule ∈ settings.rules, rule.appliesTo node = false)
    (hmembers : type.facets.enumeration = [])
    (hpatterns : type.facets.patterns = []) {d : Draw String}
    (hkind : ofKind type node settings.numbers = Step.draw d) (s : Session) :
    outcome (ofType? (some type) node settings files) s =
      (.ok (some (d s.stream).1), { s with stream := (d s.stream).2 }) := by
  have hofType : outcome (ofType type node settings files) s =
      (.ok (d s.stream).1, { s with stream := (d s.stream).2 }) := by
    rw [outcome_ofType_of_kind hrules hmembers hpatterns, hkind]
    exact outcome_draw rfl
  rw [ofType?, outcome_bind_of_ok hofType]
  exact outcome_pure _ _

end Value

end Specimen
