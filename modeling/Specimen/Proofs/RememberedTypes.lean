/-
What is remembered for a document never shows.  Simple types are kept under
their numbers, without the nodes that asked for them; but only successes are
kept, and those are the same for every node.  So a document comes out as if
every node had its type resolved anew: the same tree or the same error, which
names the node that met it, and the same run behind it.
-/
import Specimen.Proofs.Generating
import Specimen.Proofs.TwoRuns

namespace Specimen.Generation

variable {σ τ α : Type}

/-- The document below a root, generated in a run, where every node has its type
resolved anew. -/
def documentAfresh [Regex.Package] (source : Source) (root : ElementDecl) :
    Step GenerationError Node := fun session =>
  let (result, progress) :=
    element source (afresh source.model) depthLimit root ⟨session, ()⟩
  (result, progress.session)

theorem afresh_faithful (m : Model) :
    (afresh m).Faithful m (fun _ => True) where
  answer _ _ _ _ := rfl
  keep _ _ _ _ := trivial

/-- The runs are the same, and what each of them remembers is sound. -/
structure SameRun (sound : σ → Prop) (sound' : τ → Prop) (p : Progress σ)
    (q : Progress τ) : Prop where
  session : p.session = q.session
  remembered : sound p.remembered
  remembered' : sound' q.remembered

section Resolvers

variable {sound : σ → Prop} {sound' : τ → Prop} {source : Source}
  {resolver : Resolver σ} {resolver' : Resolver τ}

theorem sameRun_ofStep {ε : Type} {wrap : ε → GenerationError}
    (step : Step ε α) :
    InStep (SameRun sound sound') (SameRun sound sound')
      (Work.ofStep wrap step) (Work.ofStep wrap step) := by
  intro p q hsame
  rcases hstep : outcome step p.session with ⟨result, session⟩
  rw [outcome_ofStep hstep, outcome_ofStep (hsame.session ▸ hstep)]
  exact ⟨rfl, rfl, hsame.remembered, hsame.remembered'⟩

/-- Both resolvers answer as the model does, whatever they remember, and so they
answer alike. -/
theorem sameRun_resolve (hfaithful : resolver.Faithful source.model sound)
    (hfaithful' : resolver'.Faithful source.model sound') (id : TypeId)
    (node : String) :
    InStep (SameRun sound sound') (SameRun sound sound')
      (Work.resolve resolver id node) (Work.resolve resolver' id node) := by
  rintro p q ⟨hsession, hsound, hsound'⟩
  have hanswer := hfaithful.answer id node _ hsound
  have hanswer' := hfaithful'.answer id node _ hsound'
  refine ⟨?_, hsession, hfaithful.keep id node _ hsound,
    hfaithful'.keep id node _ hsound'⟩
  simp only [outcome, Work.resolve, hanswer, hanswer']

/-- Elements come out alike whichever way their types are found, as long as it
is faithful to the model. -/
theorem sameRun_element [Regex.Package]
    (hfaithful : resolver.Faithful source.model sound)
    (hfaithful' : resolver'.Faithful source.model sound') (levels : Nat)
    (decl : ElementDecl) :
    InStep (SameRun sound sound') (SameRun sound sound')
      (element source resolver levels decl)
      (element source resolver' levels decl) := by
  apply inStep_element rfl rfl
  · exact fun d => sameRun_ofStep (Step.draw d)
  · rfl
  · intro id node
    apply (sameRun_resolve hfaithful hfaithful' id node).bind
    intro type
    exact sameRun_ofStep _

end Resolvers

/-- A document is the same as if the type of every element and of every
attribute were resolved anew, and leaves the same run, also where it fails.
What has been remembered for it is what the model resolves to for any node that
might ask.  The types are meant to have numbers of the model, as they do where
the model is closed. -/
theorem document_afresh [Regex.Package] (source : Source) (root : ElementDecl)
    (session : Session) :
    outcome (document source root) session =
        outcome (documentAfresh source root) session ∧
      Found.Sound source.model
        (outcome (element source (remembering source.model) depthLimit root)
          ⟨session, []⟩).2.remembered := by
  have hsame : SameRun (Found.Sound source.model) (fun _ : Unit => True)
      ⟨session, []⟩ ⟨session, ()⟩ :=
    ⟨rfl, Found.sound_nil source.model, trivial⟩
  obtain ⟨hresult, hafter⟩ := sameRun_element
    (remembering_faithful source.model) (afresh_faithful source.model)
    depthLimit root _ _ hsame
  exact ⟨Prod.ext hresult hafter.session, hafter.remembered⟩

end Specimen.Generation
