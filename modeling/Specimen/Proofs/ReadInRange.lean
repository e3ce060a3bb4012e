/-
Converted models are read in range.  Whoever begins with a number that has a
definition in a closed model meets only such numbers, so that it makes no
difference what stands behind others.  This goes for chains of restrictions, for
the values of nodes and for whole documents.
-/
import Specimen.Proofs.ClosedModels
import Specimen.Proofs.Congruence

namespace Specimen

theorem Particle.mem_mentionsAll {ps : List Particle} {id : TypeId} :
    id ∈ Particle.mentionsAll ps ↔ ∃ p ∈ ps, id ∈ p.mentions := by
  induction ps with
  | nil => simp [Particle.mentionsAll]
  | cons p ps ih => simp [Particle.mentionsAll, ih]

/-- The type of an element that stands in a part of a content model is mentioned
there. -/
theorem Particle.Holds.type_mem {p : Particle} {decl : ElementDecl}
    (hholds : p.Holds decl) : decl.type ∈ p.mentions := by
  induction hholds with
  | element decl => exact List.mem_singleton.mpr rfl
  | group hp _ ih =>
      rw [Particle.mentions, GroupOf.mentions]
      exact Particle.mem_mentionsAll.mpr ⟨_, hp, ih⟩

namespace Model

/-- The second model has the definitions of the first; behind the numbers that
have no definition in the first it may have any. -/
def SameWithin (m m' : Model) : Prop :=
  ∀ id < m.types.length, m'.get id = m.get id

variable {m m' : Model}

theorem Closed.lt_of_mentions (hclosed : m.Closed) {id : TypeId}
    (hid : id < m.types.length) :
    ∀ inner ∈ (m.get id).mentions, inner < m.types.length := by
  rw [get, List.getElem?_eq_getElem hid, Option.getD_some]
  exact hclosed.types _ (List.getElem_mem hid)

theorem Closed.chain_eq (hclosed : m.Closed) (hsame : m.SameWithin m')
    {id : TypeId} (hid : id < m.types.length) (node : String) (left : Nat)
    (facets : Facets) :
    m'.chain node left facets id = m.chain node left facets id := by
  induction left generalizing id facets with
  | zero => rw [chain, chain]
  | succ left ih =>
      have hmentions := hclosed.lt_of_mentions hid
      rw [chain, chain, hsame id hid]
      cases hget : m.get id with
      | builtin kind => rfl
      | complex type => rfl
      | restriction base step =>
          rw [hget] at hmentions
          exact ih (hmentions base (List.mem_singleton.mpr rfl)) _

theorem Closed.resolve_eq (hclosed : m.Closed) (hsame : m.SameWithin m')
    {id : TypeId} (hid : id < m.types.length) (node : String) :
    m'.resolve id node = m.resolve id node := by
  rw [resolve, resolve, hsame id hid, hclosed.chain_eq hsame hid]

end Model

namespace Generation

section Reading

variable {m m' : Model} {settings : Settings} {files : Files}
  (hclosed : m.Closed) (hsame : m.SameWithin m')

include hclosed hsame

theorem valueOf_eq [Regex.Package] {id : TypeId} (hid : id < m.types.length)
    (node : String) :
    valueOf ⟨m', settings, files⟩ (remembering m') id node =
      valueOf ⟨m, settings, files⟩ (remembering m) id node := by
  have hremembering : remembering m' id node = remembering m id node := by
    funext found
    rw [remembering, remembering, hclosed.resolve_eq hsame hid]
  have hresolve : Work.resolve (remembering m') id node =
      Work.resolve (remembering m) id node := by
    funext p
    rw [Work.resolve, Work.resolve, hremembering]
  rw [valueOf, valueOf, hresolve]

/-- The elements in the content of an element have types in range as well. -/
theorem corresponding_eq [Regex.Package] :
    Corresponding (fun _ first second => first = second)
      ⟨m', settings, files⟩ ⟨m, settings, files⟩ (remembering m')
      (remembering m) (·.type < m.types.length) where
  cap := rfl
  inclusion := rfl
  contains := by
    rintro decl inner hdecl ⟨htype, hcontent, hholds⟩
    rw [hsame _ hdecl] at htype
    refine hclosed.lt_of_mentions hdecl _ ?_
    rw [htype]
    refine List.mem_append_right _ ?_
    rw [hcontent]
    exact hholds.type_mem
  get decl hdecl := hsame _ hdecl
  value := by
    intro decl id node hdecl hvalued
    refine valueOf_eq hclosed hsame ?_ node
    cases hvalued with
    | text => exact hdecl
    | attr htype ha =>
        rw [hsame _ hdecl] at htype
        refine hclosed.lt_of_mentions hdecl _ ?_
        rw [htype]
        exact List.mem_append_left _ (List.mem_map_of_mem ha)

theorem document_eq [Regex.Package] {root : ElementDecl}
    (hroot : root.type < m.types.length) :
    document ⟨m', settings, files⟩ root =
      document ⟨m, settings, files⟩ root := by
  funext session
  have helement : element ⟨m', settings, files⟩ (remembering m')
      depthLimit root =
      element ⟨m, settings, files⟩ (remembering m) depthLimit root :=
    congruent_eq.element (fun _ => rfl) (corresponding_eq hclosed hsame)
      depthLimit hroot
  rw [document, document, helement]

end Reading

end Generation

namespace Declaration

section Restrictions

variable {M : Meaning} {d : TypeDef}

theorem RestrictionItem.AllMean.exists_restriction
    {items : List RestrictionItem} {base : Option TypeId} {facets : Facets}
    (hmean : RestrictionItem.AllMean M items base facets d) :
    ∃ base facets, d = .restriction base facets := by
  induction items generalizing base facets with
  | nil =>
      cases hmean with
      | nil base facets => exact ⟨base, facets, rfl⟩
  | cons item rest ih =>
      cases hmean with
      | cons _ _ hrest => exact ih hrest

theorem SimpleItem.AllMean.exists_restriction {items : List SimpleItem}
    {found : Option TypeDef} (hmean : SimpleItem.AllMean M items found (some d))
    (hfound : ∀ e ∈ found, ∃ base facets, e = .restriction base facets) :
    ∃ base facets, d = .restriction base facets := by
  induction items generalizing found with
  | nil =>
      cases hmean
      exact hfound d rfl
  | cons item rest ih =>
      cases hmean with
      | cons _ hitem hrest =>
          refine ih hrest fun e he => ?_
          obtain rfl := Option.some.inj he
          cases hitem with
          | named _ hitems => exact hitems.exists_restriction
          | inline hitems => exact hitems.exists_restriction

theorem SimpleItem.Define.exists_restriction {items : List SimpleItem}
    (hdefine : SimpleItem.Define M items d) :
    ∃ base facets, d = .restriction base facets := by
  obtain ⟨hitems, hfound⟩ := hdefine
  cases hfound with
  | found d =>
      exact hitems.exists_restriction fun e he =>
        absurd he (Option.not_mem_none e)
  | string => exact ⟨_, _, rfl⟩

end Restrictions

/-- What a named type is declared to be is never a builtin type. -/
theorem TypeContent.Means.ne_builtin {M : Meaning} {content : TypeContent}
    {d : TypeDef} (hmeans : content.Means M d) (kind : Kind) :
    d ≠ .builtin kind := by
  cases hmeans with
  | simple hitems =>
      obtain ⟨base, facets, rfl⟩ := hitems.exists_restriction
      exact nofun
  | complex => exact nofun

/-- The model of some declarations is closed, and it does not matter what stands
behind numbers that have no definition in it.  Behind the number of every named
type stands what is declared of it, and not what stood there before; builtin
types are what they have to be, and from the step on in which they are first
met. -/
theorem toModel_closed [Regex.Package]
    {declarations : List TopLevel} {m : Model}
    (hmodel : toModel declarations = .ok m) :
    m.Closed ∧
      (∀ m', m.SameWithin m' →
        (∀ id < m.types.length, ∀ node,
          m'.resolve id node = m.resolve id node) ∧
        ∀ settings files, ∀ root ∈ m.elements,
          Generation.document ⟨m', settings, files⟩ root =
            Generation.document ⟨m, settings, files⟩ root) ∧
      (∀ t ∈ namedTypes declarations, ∃ d, m.types[t.2]? = some d ∧
        t.1.2.Means (m.meaning declarations) d ∧ ∀ kind, d ≠ .builtin kind) ∧
      (∀ name id, m.builtins.lookup name = some id →
        Model.BuiltinAt (fun id d => m.types[id]? = some d) name id) ∧
      ∃ c, Collection.ofTopLevel declarations = .ok c ∧
        ∀ done rest,
          c.steps (References.within c.directory c.directory.depth) =
            done ++ rest →
          ∃ b b', (done.forM id).run { model := c.model } = .ok ((), b) ∧
            (rest.forM id).run b = .ok ((), b') ∧ b'.model = m ∧
            ∀ name id, b.model.builtins.lookup name = some id →
              m.builtins.lookup name = some id ∧
                m.types[id]? = b.model.types[id]? := by
  obtain ⟨c, b, hcollected, hrun, rfl⟩ := toModel_eq_ok_iff.mp hmodel
  have hholds := Collection.holds_ofTopLevel hcollected
  obtain ⟨hsound, -, -⟩ := sound_build hholds hrun
  rw [Collection.build_eq] at hrun
  obtain ⟨-, hclosed⟩ := closed_of_run hholds (fun _ => id)
    (closed_collected hholds) hrun
  refine ⟨hclosed.model, fun m' hsame => ⟨fun id hid =>
    hclosed.model.resolve_eq hsame hid, fun settings files root hroot =>
      Generation.document_eq hclosed.model hsame
        (hclosed.model.elements root hroot)⟩, fun t ht => ?_,
    fun name id hlookup => (hsound.builtin name id hlookup).mono
      fun _ _ hdefinition => hdefinition.1, c, hcollected,
    fun done rest hsteps => ?_⟩
  · obtain ⟨d, hget, hmeans⟩ := (toModel_means hmodel).1 t ht
    exact ⟨d, hget, hmeans, hmeans.ne_builtin⟩
  · rw [hsteps, List.forM_eq_forM, List.forM_append] at hrun
    obtain ⟨_, b₁, hdone, hrest⟩ := Conversion.run_bind_eq_ok_iff.mp hrun
    obtain ⟨-, hclosed₁⟩ := closed_of_run hholds (fun step hstep => by
      rw [hsteps]
      exact List.mem_append_left _ hstep) (closed_collected hholds) hdone
    obtain ⟨hcontinues, -⟩ := closed_of_run hholds (fun step hstep => by
      rw [hsteps]
      exact List.mem_append_right _ hstep) hclosed₁ hrest
    exact ⟨b₁, b, hdone, hrest, rfl, hcontinues.kept⟩

namespace ClosedWitness

/-- A shelf holds titles; both types are declared behind the element that needs
them, and a title restricts a builtin type. -/
def shelf : List TopLevel :=
  [.element ⟨some "shelf", none, some "Shelf", {}, false, false⟩ [],
    .complexType (some "Shelf") [.group .sequence {}
      [.element ⟨some "book", none, some "Title", {}, false, false⟩ []]],
    .simpleType (some "Title")
      [.restriction (some "token") [.facet ⟨.maxLength, "20"⟩]]]

/-- The two named types and the builtin type that is met are all there is. -/
theorem shelf_closed : ∃ m, toModel shelf = .ok m ∧ m.types.length = 3 ∧
    m.Closed ∧ ∃ d, m.types[1]? = some d ∧ ∀ kind, d ≠ .builtin kind := by
  have hlength : (toModel shelf).toOption.map (fun m => m.types.length) =
      some 3 := by
    decide +kernel
  obtain ⟨m, hm, hlength⟩ := Option.map_eq_some_iff.mp hlength
  have hmodel := eq_ok_of_toOption hm
  obtain ⟨hclosed, -, hnamed, -⟩ := toModel_closed hmodel
  have htitle : (("Title", TypeContent.simple [.restriction (some "token")
      [.facet ⟨.maxLength, "20"⟩]]), 1) ∈ namedTypes shelf :=
    List.mem_cons_of_mem _ List.mem_cons_self
  obtain ⟨d, hget, -, hnew⟩ := hnamed _ htitle
  exact ⟨m, hmodel, hlength, hclosed, d, hget, hnew⟩

end ClosedWitness

end Declaration

end Specimen
