/-
What the steps of generation yield.  A judgement on a step says what every value
satisfies that it gives, as long as the simple types remembered so far are the
ones that the model resolves to; it goes through sequences, draws and
repetitions.
-/
import Specimen.Generation
import Specimen.Proofs.DrawRange
import Specimen.Proofs.Steps

namespace Specimen

def TypeDef.IsComplex : TypeDef → Prop
  | .complex _ => True
  | _ => False

theorem TypeDef.isComplex_iff {type : TypeDef} :
    type.IsComplex ↔ ∃ content, type = .complex content := by
  cases type <;> simp [IsComplex]

namespace Model

/-- Whether a chain of restrictions ends well does not depend on the node that
asks for it. -/
theorem chain_eq_ok_of_node {m : Model} {node other : String} {left : Nat}
    {facets : Facets} {id : TypeId} {type : SimpleType}
    (hchain : m.chain node left facets id = .ok type) :
    m.chain other left facets id = .ok type := by
  induction left generalizing facets id with
  | zero => simp [chain] at hchain
  | succ left ih =>
      simp only [chain] at hchain ⊢
      split at hchain
      · exact hchain
      · exact ih hchain
      · contradiction

theorem resolve_eq_ok_of_node {m : Model} {id : TypeId} {node other : String}
    {type : Option SimpleType} (hresolve : m.resolve id node = .ok type) :
    m.resolve id other = .ok type := by
  unfold resolve at hresolve ⊢
  split at hresolve
  · exact hresolve
  · cases hchain : m.chain node chainLimit Facets.none id with
    | error e => simp [hchain, Except.map] at hresolve
    | ok simple =>
        rw [hchain] at hresolve
        rw [chain_eq_ok_of_node hchain]
        exact hresolve

/-- A type that resolves gives a simple type, unless it is complex. -/
theorem isNone_of_resolve {m : Model} {id : TypeId} {node : String}
    {type : Option SimpleType} (hresolve : m.resolve id node = .ok type) :
    type = none ↔ (m.get id).IsComplex := by
  unfold resolve at hresolve
  split at hresolve
  · rename_i hget
    simp only [Except.ok.injEq] at hresolve
    simp [← hresolve, hget, TypeDef.IsComplex]
  · rename_i hget
    cases hchain : m.chain node chainLimit Facets.none id with
    | error e => simp [hchain, Except.map] at hresolve
    | ok simple =>
        simp only [hchain, Except.map, Except.ok.injEq] at hresolve
        subst hresolve
        cases htype : m.get id with
        | complex type => exact absurd htype (hget type)
        | _ => simp [TypeDef.IsComplex]

end Model

namespace Generation

variable {σ α β : Type}

/-- A step of the run moves the run alone. -/
theorem outcome_ofStep {ε : Type} {wrap : ε → GenerationError}
    {step : Step ε α} {p : Progress σ} {result : Except ε α} {session : Session}
    (hstep : outcome step p.session = (result, session)) :
    outcome (Work.ofStep wrap step) p =
      (result.mapError wrap, { p with session }) := by
  rw [outcome] at hstep
  simp only [outcome, Work.ofStep, hstep]

/-- A type that is looked for changes what is remembered alone. -/
theorem outcome_resolve {resolver : Resolver σ} {id : TypeId} {node : String}
    {p : Progress σ} {result : Except ChainError (Option SimpleType)}
    {remembered : σ}
    (hresult : resolver id node p.remembered = (result, remembered)) :
    outcome (Work.resolve resolver id node) p =
      (result.mapError .chain, { p with remembered }) := by
  simp only [outcome, Work.resolve, hresult]

/-- Every value that the work gives satisfies `post`, and what is remembered
stays `sound`. -/
def Yields (sound : σ → Prop) (work : Work σ α) (post : α → Prop) : Prop :=
  ∀ p a p', sound p.remembered → outcome work p = (.ok a, p') →
    post a ∧ sound p'.remembered

namespace Yields

variable {sound : σ → Prop}

theorem of_pure {post : α → Prop} {a : α} (hpost : post a) :
    Yields sound (pure a) post := by
  intro p b p' hsound hrun
  simp only [outcome_pure, Prod.mk.injEq, Except.ok.injEq] at hrun
  obtain ⟨rfl, rfl⟩ := hrun
  exact ⟨hpost, hsound⟩

theorem bind {work : Work σ α} {next : α → Work σ β} {mid : α → Prop}
    {post : β → Prop} (hwork : Yields sound work mid)
    (hnext : ∀ a, mid a → Yields sound (next a) post) :
    Yields sound (work >>= next) post := by
  intro p b p' hsound hrun
  obtain ⟨a, q, hfirst, hrest⟩ := outcome_bind_eq_ok_iff.mp hrun
  obtain ⟨hmid, hsound⟩ := hwork p a q hsound hfirst
  exact hnext a hmid q b p' hsound hrest

theorem mono {work : Work σ α} {mid post : α → Prop}
    (hwork : Yields sound work mid) (himp : ∀ a, mid a → post a) :
    Yields sound work post := by
  intro p a p' hsound hrun
  obtain ⟨hmid, hsound⟩ := hwork p a p' hsound hrun
  exact ⟨himp a hmid, hsound⟩

theorem of_throw {post : α → Prop} (e : GenerationError) :
    Yields sound (throw e : Work σ α) post := by
  intro p a p' _ hrun
  rw [outcome_throw] at hrun
  cases hrun

/-- A step of the run leaves alone what is remembered. -/
theorem of_step {ε : Type} {wrap : ε → GenerationError} {step : Step ε α}
    {post : α → Prop}
    (hstep : ∀ s a t, outcome step s = (.ok a, t) → post a) :
    Yields sound (Work.ofStep wrap step) post := by
  intro p a p' hsound hrun
  rcases hresult : outcome step p.session with ⟨result, session⟩
  rw [outcome_ofStep hresult] at hrun
  cases result with
  | error e => simp [Except.mapError] at hrun
  | ok b =>
      simp only [Except.mapError, Prod.mk.injEq, Except.ok.injEq] at hrun
      obtain ⟨rfl, rfl⟩ := hrun
      exact ⟨hstep p.session b session hresult, hsound⟩

theorem of_draw {d : Draw α} {post : α → Prop} (hdraw : ∀ s, post (d s).1) :
    Yields sound (Work.draw d) post := by
  apply of_step
  intro s a t hrun
  have hvalue := congrArg Prod.fst hrun
  change Except.ok (d s.stream).1 = Except.ok a at hvalue
  cases hvalue
  exact hdraw s.stream

end Yields

/-- With sound memory the resolver answers as the model does, and it keeps the
memory sound. -/
structure Resolver.Faithful (m : Model) (resolver : Resolver σ)
    (sound : σ → Prop) : Prop where
  answer : ∀ id node memo, sound memo →
    (resolver id node memo).1 = m.resolve id node
  keep : ∀ id node memo, sound memo → sound (resolver id node memo).2

/-- Every type found so far is what the model resolves to, for every node. -/
def Found.Sound (m : Model) (found : Found) : Prop :=
  ∀ id type, found.lookup id = some type → ∀ node, m.resolve id node = .ok type

theorem Found.sound_nil (m : Model) : Found.Sound m [] := by
  intro id type hlookup
  simp at hlookup

theorem Found.Sound.cons {m : Model} {found : Found} {id : TypeId}
    {node : String} {type : Option SimpleType} (hfound : found.Sound m)
    (hresolve : m.resolve id node = .ok type) :
    Found.Sound m ((id, type) :: found) := by
  intro other type' hlookup node'
  rw [List.lookup_cons] at hlookup
  cases heq : other == id with
  | true =>
      simp only [heq, Option.some.injEq] at hlookup
      subst hlookup
      rw [eq_of_beq heq]
      exact Model.resolve_eq_ok_of_node hresolve
  | false =>
      simp only [heq] at hlookup
      exact hfound other type' hlookup node'

theorem remembering_faithful (m : Model) :
    (remembering m).Faithful m (Found.Sound m) where
  answer id node found hfound := by
    unfold remembering
    cases hlookup : found.lookup id with
    | some type => exact (hfound id type hlookup node).symm
    | none => cases m.resolve id node <;> rfl
  keep id node found hfound := by
    unfold remembering
    cases hlookup : found.lookup id with
    | some type => exact hfound
    | none =>
        cases hresolve : m.resolve id node with
        | ok type => exact hfound.cons hresolve
        | error e => exact hfound

section Steps

variable {sound : σ → Prop} {source : Source} {resolver : Resolver σ}

theorem yields_resolve (hfaithful : resolver.Faithful source.model sound)
    (id : TypeId) (node : String) :
    Yields sound (Work.resolve resolver id node)
      (fun type => source.model.resolve id node = .ok type) := by
  intro p type p' hsound hrun
  have hanswer := hfaithful.answer id node p.remembered hsound
  have hkeep := hfaithful.keep id node p.remembered hsound
  rcases hresult : resolver id node p.remembered with ⟨result, remembered⟩
  rw [hresult] at hanswer hkeep
  rw [outcome_resolve hresult] at hrun
  cases result with
  | error e => simp [Except.mapError] at hrun
  | ok found =>
      simp only [Except.mapError, Prod.mk.injEq, Except.ok.injEq] at hrun
      obtain ⟨rfl, rfl⟩ := hrun
      exact ⟨hanswer.symm, hkeep⟩

/-- A simple type has a value whenever its value can be made; no type has
none. -/
theorem isNone_of_ofType? [Regex.Package] {type : Option SimpleType}
    {node : String} {settings : Settings} {files : Files} {s t : Session}
    {value : Option String}
    (hrun : outcome (Value.ofType? type node settings files) s =
      (.ok value, t)) : value = none ↔ type = none := by
  cases type with
  | none =>
      simp only [Value.ofType?, outcome_pure, Prod.mk.injEq,
        Except.ok.injEq] at hrun
      simp [hrun.1]
  | some type =>
      simp only [Value.ofType?] at hrun
      obtain ⟨text, u, _, hrest⟩ := outcome_bind_eq_ok_iff.mp hrun
      simp only [outcome_pure, Prod.mk.injEq, Except.ok.injEq] at hrest
      simp [← hrest.1]

/-- Exactly the nodes of complex type go without a value. -/
theorem yields_valueOf [Regex.Package]
    (hfaithful : resolver.Faithful source.model sound)
    (id : TypeId) (node : String) :
    Yields sound (valueOf source resolver id node)
      (fun value => value = none ↔ (source.model.get id).IsComplex) := by
  apply (yields_resolve hfaithful id node).bind
  intro type hresolve
  apply Yields.of_step
  intro s value t hrun
  rw [isNone_of_ofType? hrun]
  exact Model.isNone_of_resolve hresolve

end Steps

end Generation

end Specimen
