/-
Generated documents conform to the content model.  Conformance is said of trees
alone, by the languages of the content models: which attributes an element has,
whether it holds text, and that its children spell a word of its content.  The
proof follows the generator: parts of a content model by their structure,
elements by the number of levels that are left.
-/
import Specimen.Proofs.ContentLanguage
import Specimen.Proofs.Generating

namespace Specimen

/-- The attribute must be present in every element: it is required, and its type
has values. -/
def Model.Demands (m : Model) (decl : AttributeDecl) : Prop :=
  decl.usage = .required ∧ ¬ (m.get decl.type).IsComplex

/-- The names are those of some of the declared attributes, in the order of the
declarations: all that are demanded, and none that is prohibited. -/
inductive Model.AttributeNames (m : Model) :
    List AttributeDecl → List String → Prop
  | nil : m.AttributeNames [] []
  | present {decl : AttributeDecl} {rest : List AttributeDecl}
      {names : List String} (hallowed : decl.usage ≠ .prohibited)
      (hrest : m.AttributeNames rest names) :
      m.AttributeNames (decl :: rest) (decl.name :: names)
  | absent {decl : AttributeDecl} {rest : List AttributeDecl}
      {names : List String} (hdemands : ¬ m.Demands decl)
      (hrest : m.AttributeNames rest names) :
      m.AttributeNames (decl :: rest) names

/-- The definition is that of a type whose elements hold text. -/
def TypeDef.HoldsText : TypeDef → Prop
  | .builtin kind => kind ≠ .anyType
  | .restriction _ _ => True
  | .complex _ => False

theorem TypeDef.holdsText_of {type : TypeDef}
    (hempty : type = .builtin .anyType → False) (hplain : ¬ type.IsComplex) :
    type.HoldsText := by
  cases type with
  | builtin kind => exact fun hkind => hempty (congrArg _ hkind)
  | restriction base facets => trivial
  | complex type => exact hplain trivial

/-- The tree is one that the declaration allows, with a cap on the number of
occurrences where the schema sets none. -/
inductive Conforms (m : Model) (cap : Nat) : ElementDecl → Node → Prop
  | empty {decl : ElementDecl} (htype : m.get decl.type = .builtin .anyType) :
      Conforms m cap decl { name := decl.name }
  | text {decl : ElementDecl} (htype : (m.get decl.type).HoldsText)
      (text : String) :
      Conforms m cap decl { name := decl.name, text := some text }
  | complex {decl : ElementDecl} {type : ComplexType}
      {attributes : List (String × String)} {word : List ElementDecl}
      {children : List Node} (htype : m.get decl.type = .complex type)
      (hattributes :
        m.AttributeNames type.attributes (attributes.map Prod.fst))
      (hword : word ∈ (ContentReading.capped cap).ofContent type.content)
      (hchildren : List.Forall₂ (Conforms m cap) word children) :
      Conforms m cap decl { name := decl.name, attributes, children }

/-- The trees spell a word of the language, letter by letter. -/
def Spells (allows : ElementDecl → Node → Prop) (words : Language ElementDecl)
    (nodes : List Node) : Prop :=
  ∃ word ∈ words, List.Forall₂ allows word nodes

namespace Spells

variable {allows : ElementDecl → Node → Prop}
  {first second words : Language ElementDecl} {left right nodes : List Node}

theorem nil : Spells allows 1 [] :=
  ⟨[], Language.nil_mem_one, .nil⟩

theorem append (hleft : Spells allows first left)
    (hright : Spells allows second right) :
    Spells allows (first * second) (left ++ right) := by
  obtain ⟨u, hu, hleft⟩ := hleft
  obtain ⟨v, hv, hright⟩ := hright
  exact ⟨u ++ v, Language.append_mem_mul hu hv,
    List.rel_append hleft hright⟩

theorem mono (hle : ∀ word ∈ first, word ∈ second)
    (hnodes : Spells allows first nodes) :
    Spells allows second nodes := by
  obtain ⟨word, hword, hnodes⟩ := hnodes
  exact ⟨word, hle word hword, hnodes⟩

theorem repetitions {counts : Set Nat} {n : Nat} (hn : n ∈ counts)
    (hnodes : Spells allows (words ^ n) nodes) :
    Spells allows (ContentReading.repetitions counts words) nodes := by
  obtain ⟨word, hword, hnodes⟩ := hnodes
  exact ⟨word, ContentReading.mem_repetitions hn hword, hnodes⟩

theorem singleton {decl : ElementDecl} {node : Node}
    (hallows : allows decl node) : Spells allows {[decl]} [node] :=
  ⟨[decl], rfl, .cons hallows .nil⟩

end Spells

namespace Generation

variable {σ : Type} {sound : σ → Prop}

/-- The number of occurrences is one that the bounds allow. -/
theorem yields_occurrences (settings : Settings) (occurs : Occurs) :
    Yields sound (occurrences settings occurs : Work σ Nat)
      (· ∈ (ContentReading.capped settings.occurrenceCap).counts occurs) := by
  have hle : occurs.least ≤
      max (occurs.most.getD settings.occurrenceCap) occurs.least :=
    Nat.le_max_right _ _
  unfold occurrences
  simp only
  split
  · rename_i hone
    apply Yields.of_pure
    exact ⟨hone.1.le, hone.2.ge⟩
  · exact Yields.of_draw fun s => Draw.count_mem hle s

theorem yields_repeated {allows : ElementDecl → Node → Prop}
    {words : Language ElementDecl} {step : Work σ (List Node)}
    (hstep : Yields sound step (Spells allows words)) (n : Nat) :
    Yields sound (repeated step n) (Spells allows (words ^ n)) := by
  induction n with
  | zero => exact Yields.of_pure (by simpa using Spells.nil)
  | succ n ih =>
      apply hstep.bind
      intro first hfirst
      apply ih.bind
      intro others hothers
      apply Yields.of_pure
      rw [pow_succ']
      exact hfirst.append hothers

section Content

variable {allows : ElementDecl → Node → Prop} {settings : Settings}
  {child : ElementDecl → Work σ Node}

mutual

/-- If every element allows its tree, the trees of a particle spell a word of
the particle. -/
theorem yields_particle
    (hchild : ∀ decl, Yields sound (child decl) (allows decl)) :
    (p : Particle) → Yields sound (particle settings child p) (Spells allows
      ((ContentReading.capped settings.occurrenceCap).ofParticle p))
  | .element decl => by
      rw [particle, ContentReading.ofParticle]
      apply (yields_occurrences settings decl.occurs).bind
      intro n hn
      have hone : Yields sound (do return [← child decl] : Work σ (List Node))
          (Spells allows {[decl]}) :=
        (hchild decl).bind fun node hnode => Yields.of_pure (.singleton hnode)
      exact (yields_repeated hone n).mono fun nodes hnodes =>
        hnodes.repetitions hn
  | .group g => by
      rw [particle, ContentReading.ofParticle]
      exact yields_group hchild g
  | .any occurs => by
      rw [particle, ContentReading.ofParticle]
      exact Yields.of_pure .nil

theorem yields_group
    (hchild : ∀ decl, Yields sound (child decl) (allows decl)) :
    (g : GroupOf Particle) →
      Yields sound (group settings child g) (Spells allows
        ((ContentReading.capped settings.occurrenceCap).ofGroup g))
  | ⟨order, occurs, children⟩ => by
      have hordered := yields_particles hchild children
      cases order with
      | choice =>
          simp only [group, ContentReading.ofGroup]
          apply (yields_occurrences settings occurs).bind
          intro n hn
          split
          · apply Yields.of_pure
            apply Spells.repetitions hn
            simpa using Spells.nil
          · rename_i hchildren
            have hpos : 0 < children.length := by
              simpa [List.length_pos_iff] using hchildren
            have hindex : Yields sound (Work.draw (Draw.index children.length))
                (· < children.length) := .of_draw fun s => Draw.index_lt hpos s
            have hone := hindex.bind fun i hi =>
              yields_particleAt hchild children i hi
            exact (yields_repeated hone n).mono fun nodes hnodes =>
              hnodes.repetitions hn
      | _ =>
          simp only [group, ContentReading.ofGroup]
          exact (yields_occurrences settings occurs).bind fun n hn =>
            (yields_repeated hordered n).mono fun nodes hnodes =>
              hnodes.repetitions hn

theorem yields_particles
    (hchild : ∀ decl, Yields sound (child decl) (allows decl)) :
    (children : List Particle) →
    Yields sound (particles settings child children) (Spells allows
      ((ContentReading.capped settings.occurrenceCap).inOrder children))
  | [] => by
      rw [particles, ContentReading.inOrder]
      exact Yields.of_pure .nil
  | p :: rest => by
      rw [particles, ContentReading.inOrder]
      apply (yields_particle hchild p).bind
      intro first hfirst
      apply (yields_particles hchild rest).bind
      intro others hothers
      exact Yields.of_pure (hfirst.append hothers)

theorem yields_particleAt
    (hchild : ∀ decl, Yields sound (child decl) (allows decl)) :
    (children : List Particle) → (i : Nat) → i < children.length →
    Yields sound (particleAt settings child children i) (Spells allows
      ((ContentReading.capped settings.occurrenceCap).oneOf children))
  | [], i, hi => absurd hi (Nat.not_lt_zero i)
  | p :: rest, 0, _ => by
      rw [particleAt, ContentReading.oneOf]
      exact (yields_particle hchild p).mono fun nodes hnodes =>
        hnodes.mono fun word hword => Or.inl hword
  | p :: rest, i + 1, hi => by
      rw [particleAt, ContentReading.oneOf]
      have hi : i < rest.length := by simpa using hi
      exact (yields_particleAt hchild rest i hi).mono fun nodes hnodes =>
        hnodes.mono fun word hword => Or.inr hword

end

end Content

section Elements

variable {source : Source} {resolver : Resolver σ}

theorem yields_isIncluded (settings : Settings) (usage : Usage) :
    Yields sound (isIncluded settings usage : Work σ Bool)
      (fun included => (usage = .required → included = true) ∧
        (usage = .prohibited → included = false)) := by
  cases usage with
  | required => exact Yields.of_pure (by simp)
  | prohibited => exact Yields.of_pure (by simp)
  | optional =>
      have hchance : Yields sound (Work.draw Draw.probability : Work σ Float)
          (fun _ => True) := .of_draw fun _ => trivial
      apply hchance.bind
      intro chance _
      exact Yields.of_pure (by simp)

/-- An attribute is left out when chance or its type leaves it out, and neither
does that to one that is demanded. -/
theorem yields_attributes [Regex.Package]
    (hfaithful : resolver.Faithful source.model sound)
    (decls : List AttributeDecl) :
    Yields sound (attributes source resolver decls) (fun attributes =>
      source.model.AttributeNames decls (attributes.map Prod.fst)) := by
  induction decls with
  | nil => exact Yields.of_pure .nil
  | cons decl rest ih =>
      rw [attributes]
      apply (yields_isIncluded source.settings decl.usage).bind
      rintro included ⟨hrequired, hprohibited⟩
      split
      · rename_i hincluded
        apply (yields_valueOf hfaithful decl.type decl.name).bind
        intro value hvalue
        apply ih.bind
        intro others hothers
        apply Yields.of_pure
        cases value with
        | none =>
            exact .absent (fun hdemands => hdemands.2 (hvalue.mp rfl)) hothers
        | some text =>
            refine .present ?_ hothers
            intro husage
            simp [hprohibited husage] at hincluded
      · rename_i hexcluded
        exact ih.mono fun names hnames =>
          .absent (fun hdemands => hexcluded (hrequired hdemands.1)) hnames

/-- By induction on the number of levels: an element that is generated conforms
to its declaration. -/
theorem yields_element [Regex.Package]
    (hfaithful : resolver.Faithful source.model sound)
    (levels : Nat) (decl : ElementDecl) :
    Yields sound (element source resolver levels decl)
      (Conforms source.model source.settings.occurrenceCap decl) := by
  induction levels generalizing decl with
  | zero => exact Yields.of_throw _
  | succ levels ih =>
      rw [element]
      split
      · rename_i htype
        exact Yields.of_pure (.empty htype)
      · rename_i type htype
        apply (yields_attributes hfaithful type.attributes).bind
        intro attributes hattributes
        have hfinish : ∀ children, Spells
            (Conforms source.model source.settings.occurrenceCap)
            ((ContentReading.capped source.settings.occurrenceCap).ofContent
              type.content) children →
            Yields sound (pure { name := decl.name, attributes, children })
              (Conforms source.model source.settings.occurrenceCap decl) := by
          rintro children ⟨word, hword, hchildren⟩
          exact Yields.of_pure (.complex htype hattributes hword hchildren)
        cases hcontent : type.content with
        | none =>
            apply (Yields.of_pure Spells.nil).bind
            simpa only [hcontent, ContentReading.ofContent] using hfinish
        | some content =>
            apply (yields_group ih content).bind
            simpa only [hcontent, ContentReading.ofContent] using hfinish
      · rename_i hempty hcomplex
        have hplain : ¬ (source.model.get decl.type).IsComplex := by
          rw [TypeDef.isComplex_iff]
          rintro ⟨type, htype⟩
          exact hcomplex type htype
        apply (yields_valueOf hfaithful decl.type decl.name).bind
        intro value hvalue
        apply Yields.of_pure
        cases value with
        | none => exact absurd (hvalue.mp rfl) hplain
        | some value => exact .text (TypeDef.holdsText_of hempty hplain) value

end Elements

/-- Every document conforms to the declaration of its root, whatever the model,
the settings and the state of the run. -/
theorem document_conforms [Regex.Package] {source : Source} {root : ElementDecl}
    {session : Session} {node : Node}
    (hdocument : (outcome (document source root) session).1 = .ok node) :
    Conforms source.model source.settings.occurrenceCap root node := by
  rcases hrun : outcome (element source (remembering source.model) depthLimit
    root) ⟨session, []⟩ with ⟨result, progress⟩
  have hresult : result = .ok node := by
    rw [← hdocument]
    simp only [outcome, document] at hrun ⊢
    rw [hrun]
  subst hresult
  exact (yields_element (remembering_faithful source.model) depthLimit root
    ⟨session, []⟩ node progress (Found.sound_nil source.model) hrun).1

namespace ConformanceWitness

/-- Trees of leaves and further trees: the type of a tree contains itself. -/
def grove : Source where
  model :=
    { types :=
        [.complex
          { content := some ⟨.sequence, {}, [
              .element { name := "leaf", type := 1, occurs := ⟨1, none⟩ },
              .element { name := "tree", type := 0, occurs := ⟨0, some 1⟩ }]⟩
            attributes := [
              { name := "kind", type := 2, usage := .required },
              { name := "age", type := 2, usage := .prohibited }] },
         .builtin .anyType,
         .restriction 3 { enumeration := ["oak", "elm"] },
         .builtin .string] }
  settings := { occurrenceCap := 2 }
  files := {}

/-- A run that grows a tree with a leaf and a tree inside. -/
theorem grove_conforms : ∃ node,
    (outcome (document grove { name := "tree", type := 0 })
      (Session.ofSeed 5)).1 = .ok node ∧
    node.children.map (·.name) = ["leaf", "tree"] ∧
    Conforms grove.model 2 { name := "tree", type := 0 } node := by
  have hchildren : (outcome (document grove { name := "tree", type := 0 })
      (Session.ofSeed 5)).1.map (fun node => node.children.map (·.name)) =
        .ok ["leaf", "tree"] := by
    decide +kernel
  cases hdocument : (outcome (document grove { name := "tree", type := 0 })
      (Session.ofSeed 5)).1 with
  | error e => simp [hdocument, Except.map] at hchildren
  | ok node =>
      refine ⟨node, rfl, ?_, document_conforms hdocument⟩
      simpa [hdocument, Except.map] using hchildren

end ConformanceWitness

end Generation

end Specimen
