/-
The depth of documents is limited.  A run is watched: a counter is raised before
an element is generated and lowered behind it, whether that succeeds or fails,
and every element that the run comes to is noted with the elements around it.
The watched run asks its counter alone when to stop, so it shows that the
recursion ends whatever types contain themselves, and that it stops nowhere but
below 64 elements.
-/
import Mathlib.Order.MinMax
import Specimen.Proofs.Conformance
import Specimen.Proofs.Congruence

namespace Specimen

mutual

/-- The number of levels of a tree. -/
def Node.height : Node → Nat
  | ⟨_, _, _, children⟩ => Node.greatestHeight children + 1

def Node.greatestHeight : List Node → Nat
  | [] => 0
  | n :: rest => max n.height (Node.greatestHeight rest)

end

theorem Node.greatestHeight_le {levels : Nat} {word : List ElementDecl}
    {nodes : List Node}
    (hnodes : List.Forall₂ (fun _ n => n.height ≤ levels) word nodes) :
    Node.greatestHeight nodes ≤ levels := by
  induction hnodes with
  | nil => exact Nat.zero_le _
  | cons hfirst _ ih => exact max_le hfirst ih

/-- The model leads from its root down through the content of the elements in
the list, the innermost first, to another one. -/
inductive Model.Leads (m : Model) (root : ElementDecl) :
    ElementDecl → List ElementDecl → Prop
  | root : m.Leads root root []
  | child {parent decl : ElementDecl} {ancestors : List ElementDecl}
    (hparent : m.Leads root parent ancestors)
    (hcontains : m.Contains parent decl) :
    m.Leads root decl (parent :: ancestors)

namespace Generation

variable {σ α β : Type}

/-- An element that a run comes to, and the elements around it that are being
generated, the innermost first. -/
structure Arrival where
  decl : ElementDecl
  ancestors : List ElementDecl

/-- What is remembered in a watched run: beside the types, the number of open
elements and the elements that the run has come to. -/
structure Watch (σ : Type) where
  remembered : σ
  depth : Nat := 0
  arrivals : List Arrival := []

/-- Find types and leave alone what is watched. -/
def Resolver.watching (resolver : Resolver σ) : Resolver (Watch σ) :=
  fun id node watch =>
    let (result, remembered) := resolver id node watch.remembered
    (result, { watch with remembered })

/-- Note an element that the run comes to. -/
def Work.arrive (arrival : Arrival) : Work (Watch σ) Unit :=
  modify fun p => { p with remembered :=
    { p.remembered with arrivals := arrival :: p.remembered.arrivals } }

/-- Count one more open element while some work is done.  A failure closes the
element too. -/
def Work.counted (work : Work (Watch σ) α) : Work (Watch σ) α := fun p =>
  let opened := { p.remembered with depth := p.remembered.depth + 1 }
  let (result, q) := outcome work { p with remembered := opened }
  let closed := { q.remembered with depth := q.remembered.depth - 1 }
  (result, { q with remembered := closed })

/-- One element, by a recursion that only the counter stops.  At most `calls`
elements are entered inside one another; for those below stands `deeper`. -/
def watched [Regex.Package] (source : Source) (resolver : Resolver σ)
    (deeper : List ElementDecl → ElementDecl → Work (Watch σ) Node) :
    (calls : Nat) → List ElementDecl → ElementDecl → Work (Watch σ) Node
  | 0, ancestors, decl => deeper ancestors decl
  | calls + 1, ancestors, decl => do
    Work.arrive ⟨decl, ancestors⟩
    if (← get).remembered.depth ≥ depthLimit then
      throw (.nestedTooDeep decl.name)
    else
      Work.counted (elementOf source resolver.watching
        (watched source resolver deeper calls (decl :: ancestors)) decl)

/-- The document below a root in a watched run, with the state behind it.  The
recursion may go one call below the limit, where the counter has to stop it. -/
def watchedDocument [Regex.Package] (source : Source)
    (deeper : List ElementDecl → ElementDecl → Work (Watch Found) Node)
    (root : ElementDecl) (session : Session) :
    Except GenerationError Node × Progress (Watch Found) :=
  outcome (watched source (remembering source.model) deeper (depthLimit + 1) []
    root) ⟨session, { remembered := [] }⟩

/-- The watched run gives the same as the other one, and leaves a state that is
related by `kept`, or by `failed` if both fail. -/
def Follows (kept : Progress σ → Progress (Watch σ) → Prop)
    (failed : GenerationError → Progress σ → Progress (Watch σ) → Prop)
    (work : Work σ α) (watched : Work (Watch σ) α) : Prop :=
  ∀ p q, kept p q → (outcome work p).1 = (outcome watched q).1 ∧
    match (outcome work p).1 with
    | .ok _ => kept (outcome work p).2 (outcome watched q).2
    | .error e => failed e (outcome work p).2 (outcome watched q).2

namespace Follows

variable {kept : Progress σ → Progress (Watch σ) → Prop}
  {failed : GenerationError → Progress σ → Progress (Watch σ) → Prop}

theorem of_pure (a : α) : Follows kept failed (pure a) (pure a) :=
  fun _ _ hkept => ⟨rfl, hkept⟩

theorem bind {first : Work σ α} {second : Work (Watch σ) α}
    {next : α → Work σ β} {next' : α → Work (Watch σ) β}
    (hfirst : Follows kept failed first second)
    (hnext : ∀ a, Follows kept failed (next a) (next' a)) :
    Follows kept failed (first >>= next) (second >>= next') := by
  intro p q hkept
  obtain ⟨hresult, hafter⟩ := hfirst p q hkept
  rcases hp : outcome first p with ⟨result, p'⟩
  rcases hq : outcome second q with ⟨result', q'⟩
  rw [hp, hq] at hresult hafter
  dsimp only at hresult hafter
  subst hresult
  cases result with
  | ok a =>
      rw [outcome_bind_of_ok hp, outcome_bind_of_ok hq]
      exact hnext a p' q' hafter
  | error e =>
      rw [outcome_bind_of_error hp, outcome_bind_of_error hq]
      exact ⟨rfl, hafter⟩

end Follows

/-- The runs are in the same state, and what is watched is as before: so many
elements are open, and such elements have been come to. -/
structure Watches (depth : Nat) (arrivals : List Arrival → Prop)
    (p : Progress σ) (q : Progress (Watch σ)) : Prop where
  session : p.session = q.session
  remembered : p.remembered = q.remembered.remembered
  depth : q.remembered.depth = depth
  arrivals : arrivals q.remembered.arrivals

section Arrivals

variable (m : Model) (root : ElementDecl)

/-- The model leads to every element, and no one is below the limit. -/
def WithinLimit (arrivals : List Arrival) : Prop :=
  ∀ a ∈ arrivals, m.Leads root a.decl a.ancestors ∧
    a.ancestors.length < depthLimit

/-- The model leads to every element, and one that has as many ancestors as the
limit allows levels is the cause of the error. -/
structure CausedBy (e : GenerationError) (arrivals : List Arrival) :
    Prop where
  leads : ∀ a ∈ arrivals, m.Leads root a.decl a.ancestors
  cause : ∀ name, e = .nestedTooDeep name ↔ ∃ a ∈ arrivals,
    a.ancestors.length = depthLimit ∧ a.decl.name = name

variable {m root}

/-- Below the limit all errors have other causes. -/
theorem WithinLimit.causedBy {arrivals : List Arrival}
    (hwithin : WithinLimit m root arrivals) {e : GenerationError}
    (hother : ∀ name, e ≠ .nestedTooDeep name) :
    CausedBy m root e arrivals where
  leads a ha := (hwithin a ha).1
  cause name := by
    constructor
    · exact fun he => absurd he (hother name)
    · rintro ⟨a, ha, hlength, -⟩
      exact absurd hlength (hwithin a ha).2.ne

/-- An element at the limit is the cause of the error that it meets. -/
theorem WithinLimit.causedBy_arrival {arrivals : List Arrival}
    (hwithin : WithinLimit m root arrivals) {a : Arrival}
    (hleads : m.Leads root a.decl a.ancestors)
    (hlength : a.ancestors.length = depthLimit) :
    CausedBy m root (.nestedTooDeep a.decl.name) (a :: arrivals) where
  leads b hb := by
    rcases List.mem_cons.mp hb with rfl | hb
    · exact hleads
    · exact (hwithin b hb).1
  cause name := by
    constructor
    · intro he
      cases he
      exact ⟨a, List.mem_cons_self, hlength, rfl⟩
    · rintro ⟨b, hb, hdeep, rfl⟩
      rcases List.mem_cons.mp hb with rfl | hb
      · rfl
      · exact absurd hdeep (hwithin b hb).2.ne

/-- The work is watched while so many elements are open. -/
abbrev Guarded (m : Model) (root : ElementDecl) (depth : Nat)
    (work : Work σ α) (watched : Work (Watch σ) α) : Prop :=
  Follows (Watches depth (WithinLimit m root))
    (fun e => Watches depth (CausedBy m root e)) work watched

theorem guarded_ofStep {depth : Nat} {ε : Type} {wrap : ε → GenerationError}
    (hwrap : ∀ e name, wrap e ≠ .nestedTooDeep name) (step : Step ε α) :
    Guarded m root depth (Work.ofStep wrap step : Work σ α)
      (Work.ofStep wrap step) := by
  intro p q hkept
  rcases hstep : outcome step p.session with ⟨result, session⟩
  rw [outcome_ofStep hstep, outcome_ofStep (hkept.session ▸ hstep)]
  refine ⟨rfl, ?_⟩
  cases result with
  | ok a => exact ⟨rfl, hkept.remembered, hkept.depth, hkept.arrivals⟩
  | error e => exact ⟨rfl, hkept.remembered, hkept.depth,
      hkept.arrivals.causedBy (hwrap e)⟩

theorem guarded_resolve {depth : Nat} (resolver : Resolver σ) (id : TypeId)
    (node : String) :
    Guarded m root depth (Work.resolve resolver id node)
      (Work.resolve resolver.watching id node) := by
  intro p q hkept
  rcases hresult : resolver id node p.remembered with ⟨result, remembered⟩
  have hwatching : resolver.watching id node q.remembered =
      (result, { q.remembered with remembered }) := by
    rw [hkept.remembered] at hresult
    simp only [Resolver.watching, hresult]
  rw [outcome_resolve hresult, outcome_resolve hwatching]
  refine ⟨rfl, ?_⟩
  cases result with
  | ok type => exact ⟨hkept.session, rfl, hkept.depth, hkept.arrivals⟩
  | error e => exact ⟨hkept.session, rfl, hkept.depth,
      hkept.arrivals.causedBy nofun⟩

theorem guarded_congruent (m : Model) (root : ElementDecl) (depth : Nat) :
    Congruent fun α (work : Work σ α) (watched : Work (Watch σ) α) =>
      Guarded m root depth work watched where
  of_pure := Follows.of_pure
  bind := Follows.bind
  of_draw d := guarded_ofStep nofun (Step.draw d)

theorem guarded_valueOf [Regex.Package] {depth : Nat} (source : Source)
    (resolver : Resolver σ) (id : TypeId) (node : String) :
    Guarded m root depth (valueOf source resolver id node)
      (valueOf source resolver.watching id node) :=
  (guarded_resolve resolver id node).bind fun _ => guarded_ofStep nofun _

/-- While the work is done one more element is open, and behind it as many as
before. -/
theorem Follows.counted {depth : Nat} {work : Work σ α}
    {watched : Work (Watch σ) α}
    (hguarded : Guarded m root (depth + 1) work watched) :
    Guarded m root depth work watched.counted := by
  intro p q hkept
  obtain ⟨hresult, hafter⟩ := hguarded p { q with remembered :=
      { q.remembered with depth := q.remembered.depth + 1 } }
    ⟨hkept.session, hkept.remembered, congrArg (· + 1) hkept.depth,
      hkept.arrivals⟩
  refine ⟨hresult, ?_⟩
  revert hafter
  split
  all_goals exact fun hafter => ⟨hafter.session, hafter.remembered,
    congrArg (· - 1) hafter.depth, hafter.arrivals⟩

/-- The state behind a result: as many elements are open as before, and the
elements that were come to show whether the depth is the cause of an error. -/
structure Explained (m : Model) (root : ElementDecl) (depth : Nat)
    (result : Except GenerationError α) (q : Progress (Watch σ)) : Prop where
  depth : q.remembered.depth = depth
  leads : ∀ a ∈ q.remembered.arrivals, m.Leads root a.decl a.ancestors
  cause : ∀ name, result = .error (.nestedTooDeep name) ↔
    ∃ a ∈ q.remembered.arrivals,
      a.ancestors.length = depthLimit ∧ a.decl.name = name

theorem Guarded.explained {depth : Nat} {work : Work σ α}
    {watched : Work (Watch σ) α} (hguarded : Guarded m root depth work watched)
    {p : Progress σ} {q : Progress (Watch σ)}
    (hkept : Watches depth (WithinLimit m root) p q) :
    (outcome work p).1 = (outcome watched q).1 ∧
      (outcome work p).2.session = (outcome watched q).2.session ∧
      Explained m root depth (outcome watched q).1 (outcome watched q).2 := by
  obtain ⟨hresult, hafter⟩ := hguarded p q hkept
  refine ⟨hresult, ?_⟩
  rw [← hresult]
  revert hafter
  cases (outcome work p).1 with
  | ok a =>
      rintro ⟨hsession, -, hdepth, hwithin⟩
      refine ⟨hsession, hdepth, fun a ha => (hwithin a ha).1, fun name => ?_⟩
      constructor
      · exact nofun
      · rintro ⟨a, ha, hlength, -⟩
        exact absurd hlength (hwithin a ha).2.ne
  | error e =>
      rintro ⟨hsession, -, hdepth, hcaused⟩
      refine ⟨hsession, hdepth, hcaused.leads, fun name => ?_⟩
      rw [Except.error.injEq]
      exact hcaused.cause name

end Arrivals

section Elements

variable [Regex.Package] {source : Source} {resolver : Resolver σ}
    {root : ElementDecl}
  {deeper : List ElementDecl → ElementDecl → Work (Watch σ) Node}

theorem outcome_watched (calls : Nat) (ancestors : List ElementDecl)
    (decl : ElementDecl) (q : Progress (Watch σ)) :
    outcome (watched source resolver deeper (calls + 1) ancestors decl) q =
      outcome (if q.remembered.depth ≥ depthLimit then
          throw (.nestedTooDeep decl.name)
        else
          Work.counted (elementOf source resolver.watching
            (watched source resolver deeper calls (decl :: ancestors)) decl))
        { q with remembered := { q.remembered with
            arrivals := ⟨decl, ancestors⟩ :: q.remembered.arrivals } } := rfl

/-- By induction on the number of levels that are left: the counter stops the
watched run where there is none. -/
theorem guarded_watched {levels : Nat} {ancestors : List ElementDecl}
    (hlevels : ancestors.length + levels = depthLimit) {decl : ElementDecl}
    (hleads : source.model.Leads root decl ancestors) :
    Guarded source.model root ancestors.length
      (element source resolver levels decl)
      (watched source resolver deeper (levels + 1) ancestors decl) := by
  induction levels generalizing ancestors decl with
  | zero =>
      intro p q hkept
      have hlength : ancestors.length = depthLimit := hlevels
      rw [outcome_watched, if_pos (hkept.depth.trans hlength).ge, element,
        outcome_throw, outcome_throw]
      exact ⟨rfl, hkept.session, hkept.remembered, hkept.depth,
        hkept.arrivals.causedBy_arrival (a := ⟨decl, ancestors⟩) hleads hlength⟩
  | succ levels ih =>
      intro p q hkept
      have hlength : ancestors.length < depthLimit := by omega
      have hinner (inner : ElementDecl)
          (hcontains : source.model.Contains decl inner) :
          Guarded source.model root (ancestors.length + 1)
            (element source resolver levels inner)
            (watched source resolver deeper (levels + 1) (decl :: ancestors)
              inner) :=
        ih (by rw [List.length_cons]; omega) (.child hleads hcontains)
      have hopened := (guarded_congruent source.model root
        (ancestors.length + 1)).elementOf rfl rfl decl rfl
        (fun id node _ => guarded_valueOf source resolver id node) hinner
      rw [outcome_watched, if_neg (by rw [hkept.depth]; omega), element_succ]
      refine hopened.counted p _ ⟨hkept.session, hkept.remembered, hkept.depth,
        fun a ha => ?_⟩
      rcases List.mem_cons.mp ha with rfl | ha
      · exact ⟨hleads, hlength⟩
      · exact hkept.arrivals a ha

/-- An element is at most as high as the number of levels that are left. -/
theorem yields_height (levels : Nat) (decl : ElementDecl) :
    Yields (fun _ => True) (element source resolver levels decl)
      (·.height ≤ levels) := by
  have hany {α : Type} (work : Work σ α) :
      Yields (fun _ => True) work (fun _ => True) :=
    fun _ _ _ _ _ => ⟨trivial, trivial⟩
  induction levels generalizing decl with
  | zero => exact .of_throw _
  | succ levels ih =>
      rw [element]
      split
      · apply Yields.of_pure
        exact Nat.succ_le_succ (Nat.zero_le _)
      · rename_i type htype
        apply (hany _).bind
        intro attributes _
        have hfinish (children : List Node)
            (hchildren : Node.greatestHeight children ≤ levels) :
            Yields (fun _ => True)
              (pure { name := decl.name, attributes, children } : Work σ Node)
              (·.height ≤ levels + 1) :=
          .of_pure (Nat.succ_le_succ hchildren)
        cases type.content with
        | none => exact hfinish [] (Nat.zero_le _)
        | some content =>
            have hgroup : Yields (fun _ => True)
                (group source.settings (element source resolver levels) content)
                (Spells (fun _ n => n.height ≤ levels) _) :=
              yields_group ih content
            apply hgroup.bind
            rintro children ⟨word, -, hchildren⟩
            exact hfinish children (Node.greatestHeight_le hchildren)
      · apply (hany _).bind
        intro text _
        apply Yields.of_pure
        exact Nat.succ_le_succ (Nat.zero_le _)

end Elements

/-- What a watched run shows of the document below a root. -/
structure DepthLimited [Regex.Package] (source : Source) (root : ElementDecl)
    (session : Session)
    (run : Except GenerationError Node × Progress (Watch Found)) : Prop where
  /-- It is the run that generates the document. -/
  same : (run.1, run.2.session) = outcome (document source root) session
  /-- Every element that was opened is closed again. -/
  closed : run.2.remembered.depth = 0
  leads : ∀ a ∈ run.2.remembered.arrivals,
    source.model.Leads root a.decl a.ancestors
  height : ∀ node, run.1 = .ok node → node.height ≤ 64
  /-- The run stops for its depth exactly if it comes to an element with 64
  ancestors. -/
  cause : ∀ name, run.1 = .error (.nestedTooDeep name) ↔
    ∃ a ∈ run.2.remembered.arrivals,
      a.ancestors.length = 64 ∧ a.decl.name = name
  shallow : (∀ decl ancestors, source.model.Leads root decl ancestors →
    ancestors.length < 64) → ∀ name, run.1 ≠ .error (.nestedTooDeep name)

/-- Whatever types contain themselves, and whatever was generated before: the
counter ends the recursion, so that nothing is ever asked of what stands for the
calls below the limit.  The types of the root and of all elements are meant to
have numbers of the model, as they do where the model is closed. -/
theorem document_depthLimited [Regex.Package] (source : Source)
    (root : ElementDecl) (session : Session)
    (deeper : List ElementDecl → ElementDecl → Work (Watch Found) Node) :
    DepthLimited source root session
      (watchedDocument source deeper root session) := by
  have hguarded : Guarded source.model root 0
      (element source (remembering source.model) depthLimit root)
      (watched source (remembering source.model) deeper (depthLimit + 1) []
        root) :=
    guarded_watched rfl .root
  obtain ⟨hresult, hsession, hdepth, hleads, hcause⟩ :=
    hguarded.explained (p := ⟨session, []⟩)
      (q := ⟨session, { remembered := [] }⟩) ⟨rfl, rfl, rfl, nofun⟩
  refine ⟨Prod.ext hresult.symm hsession.symm, hdepth, hleads,
    fun node hnode => ?_, hcause, fun hshallow name hname => ?_⟩
  · have hplain : outcome (element source (remembering source.model) depthLimit
        root) ⟨session, []⟩ = (.ok node, _) :=
      Prod.ext (hresult.trans hnode) rfl
    exact (yields_height depthLimit root _ node _ trivial hplain).1
  · obtain ⟨a, ha, hlength, -⟩ := (hcause name).mp hname
    exact absurd hlength (hshallow _ _ (hleads a ha)).ne

end Generation

end Specimen
