/-
Relations between two ways to generate.  Generation is put together of
constants, draws and sequences.  A relation that these keep goes through groups
and elements: it holds between two contents if it holds between the elements
that stand in them, and between two elements if it holds between the values of
the nodes that are met below them.
-/
import Specimen.Generation

namespace Specimen

/-- The element stands in a part of a content model, in as many groups as there
may be around it. -/
inductive Particle.Holds : Particle → ElementDecl → Prop
  | element (decl : ElementDecl) : Holds (.element decl) decl
  | group {order : Order} {occurs : Occurs} {children : List Particle}
    {p : Particle} {decl : ElementDecl} (hp : p ∈ children)
    (hholds : p.Holds decl) : Holds (.group ⟨order, occurs, children⟩) decl

/-- The second element stands in the content of the first one. -/
inductive Model.Contains (m : Model) (parent decl : ElementDecl) : Prop
  | intro {type : ComplexType} {content : Group}
    (htype : m.get parent.type = .complex type)
    (hcontent : type.content = some content)
    (hholds : (Particle.group content).Holds decl)

/-- The node with this type and name has a value of its own when the element is
generated: an attribute, or the element itself if its type is not complex. -/
inductive Model.Valued (m : Model) (decl : ElementDecl) : TypeId → String → Prop
  | text (hsimple : ∀ type, m.get decl.type ≠ .complex type) :
    Valued m decl decl.type decl.name
  | attr {type : ComplexType} {a : AttributeDecl}
    (htype : m.get decl.type = .complex type) (ha : a ∈ type.attributes) :
    Valued m decl a.type a.name

namespace Generation

variable {σ τ : Type}

/-- The relation holds between constants and between draws, and sequences keep
it. -/
structure Congruent (related : ∀ α : Type, Work σ α → Work τ α → Prop) :
    Prop where
  of_pure : ∀ {α : Type} (a : α), related α (pure a) (pure a)
  bind : ∀ {α β : Type} {first : Work σ α} {second : Work τ α}
    {next : α → Work σ β} {next' : α → Work τ β}, related α first second →
    (∀ a, related β (next a) (next' a)) →
      related β (first >>= next) (second >>= next')
  of_draw : ∀ {α : Type} (d : Draw α),
    related α (Work.draw d) (Work.draw d)

theorem congruent_eq :
    Congruent fun _ (first second : Work σ _) => first = second where
  of_pure _ := rfl
  bind hfirst hnext := by rw [hfirst, funext hnext]
  of_draw _ := rfl

namespace Congruent

variable {related : ∀ α : Type, Work σ α → Work τ α → Prop}

theorem occurrences (hrelated : Congruent related)
    {settings settings' : Settings}
    (hcap : settings.occurrenceCap = settings'.occurrenceCap)
    (occurs : Occurs) :
    related Nat (occurrences settings occurs)
      (occurrences settings' occurs) := by
  unfold Generation.occurrences
  rw [hcap]
  dsimp only
  split
  · exact hrelated.of_pure 1
  · exact hrelated.of_draw _

theorem repeated (hrelated : Congruent related) {α : Type}
    {first : Work σ (List α)} {second : Work τ (List α)}
    (hstep : related _ first second) (n : Nat) :
    related _ (repeated first n) (repeated second n) := by
  induction n with
  | zero => exact hrelated.of_pure []
  | succ n ih =>
      apply hrelated.bind hstep
      intro nodes
      apply hrelated.bind ih
      intro others
      exact hrelated.of_pure _

section Content

variable {settings settings' : Settings} {child : ElementDecl → Work σ Node}
  {child' : ElementDecl → Work τ Node}

mutual

/-- If the elements in them are related, so are the parts of content. -/
theorem particle (hrelated : Congruent related)
    (hcap : settings.occurrenceCap = settings'.occurrenceCap) :
    (p : Particle) →
    (∀ decl, p.Holds decl → related _ (child decl) (child' decl)) →
    related _ (particle settings child p) (particle settings' child' p)
  | .element decl, hchild => by
      rw [Generation.particle, Generation.particle]
      apply hrelated.bind (hrelated.occurrences hcap decl.occurs)
      intro n
      have hone : related _ (do return [← child decl])
          (do return [← child' decl]) :=
        hrelated.bind (hchild decl (.element decl)) fun node =>
          hrelated.of_pure [node]
      exact hrelated.repeated hone n
  | .group g, hchild => by
      rw [Generation.particle, Generation.particle]
      exact hrelated.group hcap g hchild
  | .any occurs, hchild => by
      rw [Generation.particle, Generation.particle]
      exact hrelated.of_pure []

theorem group (hrelated : Congruent related)
    (hcap : settings.occurrenceCap = settings'.occurrenceCap) :
    (g : GroupOf Particle) →
    (∀ decl, (Particle.group g).Holds decl →
      related _ (child decl) (child' decl)) →
    related _ (group settings child g) (group settings' child' g)
  | ⟨order, occurs, children⟩, hchild => by
      have hchildren (p : Particle) (hp : p ∈ children) (decl : ElementDecl)
          (hholds : p.Holds decl) : related _ (child decl) (child' decl) :=
        hchild decl (.group hp hholds)
      have hordered := hrelated.particles hcap children hchildren
      cases order with
      | choice =>
          simp only [Generation.group]
          apply hrelated.bind (hrelated.occurrences hcap occurs)
          intro n
          split
          · exact hrelated.of_pure []
          · have hone := hrelated.bind
              (hrelated.of_draw (Draw.index children.length))
              fun i => hrelated.particleAt hcap children i hchildren
            exact hrelated.repeated hone n
      | _ =>
          simp only [Generation.group]
          exact hrelated.bind (hrelated.occurrences hcap occurs) fun n =>
            hrelated.repeated hordered n

theorem particles (hrelated : Congruent related)
    (hcap : settings.occurrenceCap = settings'.occurrenceCap) :
    (children : List Particle) →
    (∀ p ∈ children, ∀ decl, p.Holds decl →
      related _ (child decl) (child' decl)) →
    related _ (particles settings child children)
      (particles settings' child' children)
  | [], _ => by
      rw [Generation.particles, Generation.particles]
      exact hrelated.of_pure []
  | p :: rest, hchild => by
      rw [Generation.particles, Generation.particles]
      apply hrelated.bind
        (hrelated.particle hcap p (hchild p List.mem_cons_self))
      intro first
      apply hrelated.bind (hrelated.particles hcap rest fun q hq =>
        hchild q (List.mem_cons_of_mem p hq))
      intro others
      exact hrelated.of_pure _

theorem particleAt (hrelated : Congruent related)
    (hcap : settings.occurrenceCap = settings'.occurrenceCap) :
    (children : List Particle) → (i : Nat) →
    (∀ p ∈ children, ∀ decl, p.Holds decl →
      related _ (child decl) (child' decl)) →
    related _ (particleAt settings child children i)
      (particleAt settings' child' children i)
  | [], i, _ => by
      rw [Generation.particleAt, Generation.particleAt]
      exact hrelated.of_pure []
  | p :: rest, 0, hchild => by
      rw [Generation.particleAt, Generation.particleAt]
      exact hrelated.particle hcap p (hchild p List.mem_cons_self)
  | p :: rest, i + 1, hchild => by
      rw [Generation.particleAt, Generation.particleAt]
      exact hrelated.particleAt hcap rest i fun q hq =>
        hchild q (List.mem_cons_of_mem p hq)

end

end Content

section Elements

variable [Regex.Package] {source source' : Source} {resolver : Resolver σ}
  {resolver' : Resolver τ}

theorem attributes (hrelated : Congruent related)
    (hinclusion : source.settings.inclusion = source'.settings.inclusion)
    (decls : List AttributeDecl)
    (hvalue : ∀ a ∈ decls, related _ (valueOf source resolver a.type a.name)
      (valueOf source' resolver' a.type a.name)) :
    related _ (attributes source resolver decls)
      (attributes source' resolver' decls) := by
  have hincluded (usage : Usage) : related _
      (isIncluded source.settings usage)
      (isIncluded source'.settings usage) := by
    cases usage with
    | required => exact hrelated.of_pure true
    | prohibited => exact hrelated.of_pure false
    | optional =>
        apply hrelated.bind (hrelated.of_draw Draw.probability)
        intro chance
        rw [hinclusion]
        exact hrelated.of_pure _
  induction decls with
  | nil => exact hrelated.of_pure []
  | cons decl rest ih =>
      obtain ⟨hdecl, hrest⟩ := List.forall_mem_cons.mp hvalue
      apply hrelated.bind (hincluded decl.usage)
      intro included
      split
      · apply hrelated.bind hdecl
        intro value
        apply hrelated.bind (ih hrest)
        intro others
        exact hrelated.of_pure _
      · exact ih hrest

end Elements

end Congruent

section Elements

variable [Regex.Package] (source : Source) (resolver : Resolver σ)

/-- One element, if it is known how those in its content are generated. -/
def elementOf (child : ElementDecl → Work σ Node) (decl : ElementDecl) :
    Work σ Node :=
  match source.model.get decl.type with
  | .builtin .anyType => return { name := decl.name }
  | .complex type => do
    let attributes ← attributes source resolver type.attributes
    let children ← match type.content with
      | none => pure []
      | some content => group source.settings child content
    return { name := decl.name, attributes, children }
  | _ => do
    let text ← valueOf source resolver decl.type decl.name
    return { name := decl.name, text }

theorem element_succ (levels : Nat) (decl : ElementDecl) :
    element source resolver (levels + 1) decl =
      elementOf source resolver (element source resolver levels) decl := rfl

end Elements

section Elements

variable [Regex.Package] {related : ∀ α : Type, Work σ α → Work τ α → Prop}
  {source source' : Source} {resolver : Resolver σ} {resolver' : Resolver τ}

/-- If the values of its nodes are related, and the elements in its content, so
are the elements themselves. -/
theorem Congruent.elementOf (hrelated : Congruent related)
    {child : ElementDecl → Work σ Node} {child' : ElementDecl → Work τ Node}
    (hcap : source.settings.occurrenceCap = source'.settings.occurrenceCap)
    (hinclusion : source.settings.inclusion = source'.settings.inclusion)
    (decl : ElementDecl)
    (hget : source.model.get decl.type = source'.model.get decl.type)
    (hvalue : ∀ id node, source.model.Valued decl id node →
      related _ (valueOf source resolver id node)
        (valueOf source' resolver' id node))
    (hchild : ∀ inner, source.model.Contains decl inner →
      related _ (child inner) (child' inner)) :
    related _ (elementOf source resolver child decl)
      (elementOf source' resolver' child' decl) := by
  unfold Generation.elementOf
  rw [← hget]
  split
  · exact hrelated.of_pure _
  · rename_i type htype
    apply hrelated.bind (hrelated.attributes hinclusion type.attributes
      fun a ha => hvalue a.type a.name (.attr htype ha))
    intro attributes
    have hfinish (children : List Node) : related _
        (pure { name := decl.name, attributes, children : Node })
        (pure { name := decl.name, attributes, children : Node }) :=
      hrelated.of_pure _
    cases hcontent : type.content with
    | none => exact hfinish []
    | some content =>
        exact hrelated.bind (hrelated.group hcap content fun inner hholds =>
          hchild inner ⟨htype, hcontent, hholds⟩) hfinish
  · rename_i hsimple
    apply hrelated.bind (hvalue decl.type decl.name (.text hsimple))
    intro text
    exact hrelated.of_pure _

/-- Two ways to generate that agree about the elements inside a part of the
first model that the content of its elements does not leave: they find the same
definitions, and they give related values to the nodes. -/
structure Corresponding (related : ∀ α : Type, Work σ α → Work τ α → Prop)
    (source source' : Source) (resolver : Resolver σ) (resolver' : Resolver τ)
    (inside : ElementDecl → Prop) : Prop where
  cap : source.settings.occurrenceCap = source'.settings.occurrenceCap
  inclusion : source.settings.inclusion = source'.settings.inclusion
  contains : ∀ decl inner, inside decl → source.model.Contains decl inner →
    inside inner
  get : ∀ decl, inside decl →
    source.model.get decl.type = source'.model.get decl.type
  value : ∀ decl id node, inside decl → source.model.Valued decl id node →
    related _ (valueOf source resolver id node)
      (valueOf source' resolver' id node)

/-- By induction on the number of levels: what stands in the content of an
element inside is inside as well. -/
theorem Congruent.element (hrelated : Congruent related)
    (hthrow : ∀ e : GenerationError, related Node (throw e) (throw e))
    {inside : ElementDecl → Prop}
    (hsources : Corresponding related source source' resolver resolver' inside)
    (levels : Nat) {decl : ElementDecl} (hdecl : inside decl) :
    related _ (element source resolver levels decl)
      (element source' resolver' levels decl) := by
  induction levels generalizing decl with
  | zero => exact hthrow _
  | succ levels ih =>
      rw [element_succ, element_succ]
      exact hrelated.elementOf hsources.cap hsources.inclusion decl
        (hsources.get decl hdecl)
        (fun id node => hsources.value decl id node hdecl)
        fun inner hcontains => ih (hsources.contains decl inner hdecl hcontains)

end Elements

end Generation

end Specimen
