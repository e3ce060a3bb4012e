/-
Two computations side by side.  They are in step if from states that belong
together they give the same results, and leave states that belong together; so
are sequences of such computations, and so is all of generation if what gives
values to nodes is.
-/
import Specimen.Proofs.Congruence
import Specimen.Proofs.Steps

namespace Specimen

/-- From states that `before` relates both give the same result, and they leave
states that `after` relates. -/
def InStep {ε S T α : Type} (before after : S → T → Prop)
    (first : ExceptT ε (StateM S) α) (second : ExceptT ε (StateM T) α) : Prop :=
  ∀ s t, before s t → (outcome first s).1 = (outcome second t).1 ∧
    after (outcome first s).2 (outcome second t).2

namespace InStep

variable {ε S T α β : Type} {before mid after : S → T → Prop}

theorem of_pure (a : α) :
    InStep (ε := ε) before before (pure a) (pure a) :=
  fun _ _ hbefore => ⟨rfl, hbefore⟩

theorem of_throw (e : ε) :
    InStep (ε := ε) (α := α) before before (throw e) (throw e) :=
  fun _ _ hbefore => ⟨rfl, hbefore⟩

theorem of_except (result : Except ε α) :
    InStep before before (liftM result : ExceptT ε (StateM S) α)
      (liftM result : ExceptT ε (StateM T) α) :=
  fun _ _ hbefore => ⟨rfl, hbefore⟩

theorem mono {first : ExceptT ε (StateM S) α} {second : ExceptT ε (StateM T) α}
    (hstep : InStep before mid first second)
    (hle : ∀ s t, mid s t → after s t) :
    InStep before after first second := by
  intro s t hbefore
  obtain ⟨hresult, hmid⟩ := hstep s t hbefore
  exact ⟨hresult, hle _ _ hmid⟩

/-- A failure of the first part ends the sequence, so the relation between the
parts must be good enough for its end. -/
theorem bind_of_le {first : ExceptT ε (StateM S) α}
    {second : ExceptT ε (StateM T) α} {next : α → ExceptT ε (StateM S) β}
    {next' : α → ExceptT ε (StateM T) β}
    (hfirst : InStep before mid first second)
    (hnext : ∀ a, InStep mid after (next a) (next' a))
    (hle : ∀ s t, mid s t → after s t) :
    InStep before after (first >>= next) (second >>= next') := by
  intro s t hbefore
  obtain ⟨hresult, hmid⟩ := hfirst s t hbefore
  rcases hs : outcome first s with ⟨result, s'⟩
  rcases ht : outcome second t with ⟨result', t'⟩
  rw [hs, ht] at hresult hmid
  dsimp only at hresult hmid
  subst hresult
  cases result with
  | ok a =>
      rw [outcome_bind_of_ok hs, outcome_bind_of_ok ht]
      exact hnext a s' t' hmid
  | error e =>
      rw [outcome_bind_of_error hs, outcome_bind_of_error ht]
      exact ⟨rfl, hle s' t' hmid⟩

theorem bind {first : ExceptT ε (StateM S) α}
    {second : ExceptT ε (StateM T) α} {next : α → ExceptT ε (StateM S) β}
    {next' : α → ExceptT ε (StateM T) β}
    (hfirst : InStep before after first second)
    (hnext : ∀ a, InStep after after (next a) (next' a)) :
    InStep before after (first >>= next) (second >>= next') :=
  hfirst.bind_of_le hnext fun _ _ hafter => hafter

/-- What is read from the states may differ as long as it leads to the same. -/
theorem get_bind {next : S → ExceptT ε (StateM S) β}
    {next' : T → ExceptT ε (StateM T) β}
    (hnext : ∀ s t, before s t → InStep before after (next s) (next' t)) :
    InStep before after (get >>= next) (get >>= next') := by
  intro s t hbefore
  rw [outcome_get_bind, outcome_get_bind]
  exact hnext s t hbefore s t hbefore

theorem of_modify {change : S → S} {change' : T → T}
    (hchange : ∀ s t, before s t → after (change s) (change' t)) :
    InStep (ε := ε) before after (modify change) (modify change') :=
  fun s t hbefore => ⟨rfl, hchange s t hbefore⟩

theorem adapt {ε' : Type} {first : ExceptT ε (StateM S) α}
    {second : ExceptT ε (StateM T) α} (wrap : ε → ε')
    (hstep : InStep before after first second) :
    InStep before after (ExceptT.adapt wrap first)
      (ExceptT.adapt wrap second) := by
  intro s t hbefore
  obtain ⟨hresult, hafter⟩ := hstep s t hbefore
  exact ⟨congrArg (Except.mapError wrap) hresult, hafter⟩

end InStep

namespace Generation

variable {σ τ α : Type}

/-- The runs are related, and the same is remembered. -/
def SameProgress (related : Session → Session → Prop)
    (p q : Progress σ) : Prop :=
  related p.session q.session ∧ p.remembered = q.remembered

theorem inStep_ofStep {related : Session → Session → Prop} {ε : Type}
    {wrap : ε → GenerationError} {first second : Step ε α}
    (hstep : InStep related related first second) :
    InStep (SameProgress (σ := σ) related) (SameProgress related)
      (Work.ofStep wrap first) (Work.ofStep wrap second) := by
  rintro p q ⟨hrelated, hremembered⟩
  obtain ⟨hresult, hafter⟩ := hstep p.session q.session hrelated
  exact ⟨congrArg (Except.mapError wrap) hresult, hafter, hremembered⟩

theorem inStep_resolve {related : Session → Session → Prop}
    (resolver : Resolver σ) (id : TypeId) (node : String) :
    InStep (SameProgress related) (SameProgress related)
      (Work.resolve resolver id node) (Work.resolve resolver id node) := by
  rintro p q ⟨hrelated, hremembered⟩
  simp only [outcome, Work.resolve, ← hremembered, true_and]
  exact ⟨hrelated, rfl⟩

section Elements

variable {related : Progress σ → Progress τ → Prop}
  {source source' : Source} {resolver : Resolver σ} {resolver' : Resolver τ}

/-- Being in step goes through generation if draws are made in step. -/
theorem inStep_congruent
    (hdraw : ∀ {α : Type} (d : Draw α),
      InStep related related (Work.draw d) (Work.draw d)) :
    Congruent fun α (first : Work σ α) (second : Work τ α) =>
      InStep related related first second where
  of_pure := InStep.of_pure
  bind := InStep.bind
  of_draw := hdraw

/-- If the values of nodes are made in step, so are the elements. -/
theorem inStep_element [Regex.Package] (hmodel : source.model = source'.model)
    (hcap : source.settings.occurrenceCap = source'.settings.occurrenceCap)
    (hdraw : ∀ {α : Type} (d : Draw α),
      InStep related related (Work.draw d) (Work.draw d))
    (hinclusion : source.settings.inclusion = source'.settings.inclusion)
    (hvalue : ∀ id node, InStep related related
      (valueOf source resolver id node) (valueOf source' resolver' id node))
    (levels : Nat) (decl : ElementDecl) :
    InStep related related (element source resolver levels decl)
      (element source' resolver' levels decl) := by
  have hsources : Corresponding
      (fun α (first : Work σ α) (second : Work τ α) =>
        InStep related related first second)
      source source' resolver resolver' (fun _ => True) :=
    { cap := hcap
      inclusion := hinclusion
      contains := fun _ _ _ _ => trivial
      get := fun decl _ => by rw [hmodel]
      value := fun _ id node _ _ => hvalue id node }
  exact (inStep_congruent hdraw).element (fun e => .of_throw e) hsources levels
    trivial

end Elements

end Generation

end Specimen
