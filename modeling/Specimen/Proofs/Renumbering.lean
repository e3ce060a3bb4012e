/-
Content models that differ in their type numbers alone.  Which number stands for
which is a relation, so that models may be compared while they are built.
-/
import Mathlib.Data.List.Forall2
import Specimen.Schema.Model

namespace Specimen

section Linked

variable (same : TypeId → TypeId → Prop)

mutual

/-- Two particles differ in their type numbers alone, and these belong together.
-/
inductive Particle.Linked : Particle → Particle → Prop where
  | element (name : String) (occurs : Occurs) {i j : TypeId}
    (htype : same i j) :
    Particle.Linked (.element ⟨name, i, occurs⟩) (.element ⟨name, j, occurs⟩)
  | group (order : Order) (occurs : Occurs) {ps qs : List Particle}
    (hchildren : Particle.AllLinked ps qs) :
    Particle.Linked (.group ⟨order, occurs, ps⟩) (.group ⟨order, occurs, qs⟩)
  | any (occurs : Occurs) : Particle.Linked (.any occurs) (.any occurs)

/-- Particles that are linked one by one. -/
inductive Particle.AllLinked : List Particle → List Particle → Prop where
  | nil : Particle.AllLinked [] []
  | cons {p q : Particle} {ps qs : List Particle} (hfirst : Particle.Linked p q)
    (hrest : Particle.AllLinked ps qs) : Particle.AllLinked (p :: ps) (q :: qs)

end

def Group.Linked (g h : Group) : Prop :=
  Particle.Linked same (.group g) (.group h)

/-- Attributes that differ in their type numbers alone. -/
inductive AttributeDecl.Linked : AttributeDecl → AttributeDecl → Prop where
  | intro (name : String) (usage : Usage) {i j : TypeId} (htype : same i j) :
    AttributeDecl.Linked ⟨name, i, usage⟩ ⟨name, j, usage⟩

/-- Complex types with linked contents and linked attributes. -/
inductive ComplexType.Linked : ComplexType → ComplexType → Prop where
  | intro {content content' : Option Group}
    {attributes attributes' : List AttributeDecl}
    (hcontent : Option.Rel (Group.Linked same) content content')
    (hattributes : List.Forall₂ (AttributeDecl.Linked same) attributes
      attributes') :
    ComplexType.Linked ⟨content, attributes⟩ ⟨content', attributes'⟩

/-- Definitions that differ in type numbers alone. -/
inductive TypeDef.Linked : TypeDef → TypeDef → Prop where
  | builtin (kind : Kind) : TypeDef.Linked (.builtin kind) (.builtin kind)
  | restriction (facets : Facets) {i j : TypeId} (hbase : same i j) :
    TypeDef.Linked (.restriction i facets) (.restriction j facets)
  | complex {t u : ComplexType} (htype : t.Linked same u) :
    TypeDef.Linked (.complex t) (.complex u)

end Linked

section Mono

variable {same same' : TypeId → TypeId → Prop}

mutual

theorem Particle.Linked.mono {p q : Particle} :
    p.Linked same q → (∀ i j, same i j → same' i j) → p.Linked same' q
  | .element name occurs htype, hle => .element name occurs (hle _ _ htype)
  | .group order occurs hchildren, hle =>
      .group order occurs (hchildren.mono hle)
  | .any occurs, _ => .any occurs

theorem Particle.AllLinked.mono {ps qs : List Particle} :
    Particle.AllLinked same ps qs → (∀ i j, same i j → same' i j) →
      Particle.AllLinked same' ps qs
  | .nil, _ => .nil
  | .cons hfirst hrest, hle => .cons (hfirst.mono hle) (hrest.mono hle)

end

theorem Group.Linked.mono {g h : Group} (hlinked : g.Linked same h)
    (hle : ∀ i j, same i j → same' i j) : g.Linked same' h :=
  Particle.Linked.mono hlinked hle

theorem AttributeDecl.Linked.mono {a b : AttributeDecl}
    (hlinked : a.Linked same b) (hle : ∀ i j, same i j → same' i j) :
    a.Linked same' b := by
  obtain ⟨name, usage, htype⟩ := hlinked
  exact ⟨name, usage, hle _ _ htype⟩

theorem ComplexType.Linked.mono {t u : ComplexType}
    (hlinked : t.Linked same u) (hle : ∀ i j, same i j → same' i j) :
    t.Linked same' u := by
  obtain ⟨hcontent, hattributes⟩ := hlinked
  refine .intro ?_ (hattributes.imp fun _ _ hattribute => hattribute.mono hle)
  cases hcontent with
  | none => exact .none
  | some hgroup => exact .some (hgroup.mono hle)

theorem TypeDef.Linked.mono {d e : TypeDef} (hlinked : d.Linked same e)
    (hle : ∀ i j, same i j → same' i j) : d.Linked same' e := by
  cases hlinked with
  | builtin kind => exact .builtin kind
  | restriction facets hbase => exact .restriction facets (hle _ _ hbase)
  | complex htype => exact .complex (htype.mono hle)

end Mono

section Eq

mutual

theorem Particle.Linked.eq {p q : Particle} : p.Linked Eq q → p = q
  | .element _ _ htype => by rw [htype]
  | .group _ _ hchildren => by rw [hchildren.eq]
  | .any _ => rfl

theorem Particle.AllLinked.eq {ps qs : List Particle} :
    Particle.AllLinked Eq ps qs → ps = qs
  | .nil => rfl
  | .cons hfirst hrest => by rw [hfirst.eq, hrest.eq]

end

theorem Group.Linked.eq {g h : Group} (hlinked : g.Linked Eq h) : g = h :=
  Particle.group.inj (Particle.Linked.eq hlinked)

theorem AttributeDecl.Linked.eq {a b : AttributeDecl}
    (hlinked : a.Linked Eq b) : a = b := by
  obtain ⟨name, usage, htype⟩ := hlinked
  rw [htype]

theorem ComplexType.Linked.eq {t u : ComplexType} (hlinked : t.Linked Eq u) :
    t = u := by
  obtain ⟨hcontent, hattributes⟩ := hlinked
  have hequal : List.Forall₂ Eq _ _ := hattributes.imp fun _ _ hattribute =>
    AttributeDecl.Linked.eq hattribute
  rw [List.forall₂_eq_eq_eq] at hequal
  cases hcontent with
  | none => rw [hequal]
  | some hgroup => rw [hequal, hgroup.eq]

theorem TypeDef.Linked.eq {d e : TypeDef} (hlinked : d.Linked Eq e) :
    d = e := by
  cases hlinked with
  | builtin kind => rfl
  | restriction facets hbase => rw [hbase]
  | complex htype => rw [htype.eq]

end Eq

section Common

/-- Two type numbers belong to a common one. -/
def Common (same same' : TypeId → TypeId → Prop) (j k : TypeId) : Prop :=
  ∃ i, same i j ∧ same' i k

variable {same same' : TypeId → TypeId → Prop}

mutual

theorem Particle.Linked.common {p q r : Particle} :
    p.Linked same q → p.Linked same' r → q.Linked (Common same same') r
  | .element name occurs htype, .element _ _ htype' =>
      .element name occurs ⟨_, htype, htype'⟩
  | .group order occurs hchildren, .group _ _ hchildren' =>
      .group order occurs (hchildren.common hchildren')
  | .any occurs, .any _ => .any occurs

theorem Particle.AllLinked.common {ps qs rs : List Particle} :
    Particle.AllLinked same ps qs → Particle.AllLinked same' ps rs →
      Particle.AllLinked (Common same same') qs rs
  | .nil, .nil => .nil
  | .cons hfirst hrest, .cons hfirst' hrest' =>
      .cons (hfirst.common hfirst') (hrest.common hrest')

end

theorem AttributeDecl.Linked.common {a b c : AttributeDecl}
    (hfirst : a.Linked same b) (hsecond : a.Linked same' c) :
    b.Linked (Common same same') c := by
  obtain ⟨name, usage, htype⟩ := hfirst
  obtain ⟨_, _, htype'⟩ := hsecond
  exact ⟨name, usage, _, htype, htype'⟩

theorem forall₂_common {as bs cs : List AttributeDecl}
    (hfirst : List.Forall₂ (AttributeDecl.Linked same) as bs)
    (hsecond : List.Forall₂ (AttributeDecl.Linked same') as cs) :
    List.Forall₂ (AttributeDecl.Linked (Common same same')) bs cs := by
  induction hfirst generalizing cs with
  | nil =>
      cases hsecond
      exact .nil
  | cons hattribute _ ih =>
      cases hsecond with
      | cons hattribute' hrest' =>
          exact .cons (hattribute.common hattribute') (ih hrest')

theorem ComplexType.Linked.common {t u v : ComplexType}
    (hfirst : t.Linked same u) (hsecond : t.Linked same' v) :
    u.Linked (Common same same') v := by
  obtain ⟨hcontent, hattributes⟩ := hfirst
  obtain ⟨hcontent', hattributes'⟩ := hsecond
  refine .intro ?_ (forall₂_common hattributes hattributes')
  cases hcontent with
  | none =>
      cases hcontent'
      exact .none
  | some hgroup =>
      cases hcontent' with
      | some hgroup' => exact .some (Particle.Linked.common hgroup hgroup')

/-- What is linked to the same definition is linked. -/
theorem TypeDef.Linked.common {d e f : TypeDef} (hfirst : d.Linked same e)
    (hsecond : d.Linked same' f) : e.Linked (Common same same') f := by
  cases hfirst with
  | builtin kind =>
      cases hsecond
      exact .builtin kind
  | restriction facets hbase =>
      cases hsecond with
      | restriction _ hbase' => exact .restriction facets ⟨_, hbase, hbase'⟩
  | complex htype =>
      cases hsecond with
      | complex htype' => exact .complex (htype.common htype')

end Common

end Specimen
