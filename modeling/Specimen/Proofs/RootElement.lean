/-
The root of a model.  It is the first top-level element that no content refers
to.  All named complex types count here, whether an element has them or not, and
so does the content of the element itself.
-/
import Specimen.Proofs.NotedReferences
import Specimen.Proofs.Steps

namespace Specimen

namespace Declaration

mutual

/-- The named types of the elements in parts of a group. -/
def typesInGroup : List GroupItem → List String
  | [] => []
  | item :: rest => typesInGroupItem item ++ typesInGroup rest

def typesInGroupItem : GroupItem → List String
  | .element head items =>
    match head.reference with
    | some _ => []
    | none => head.type.toList ++ typesInElement items
  | .reference _ _ => []
  | .group _ _ items => typesInGroup items
  | .any _ => []

def typesInElement : List ElementItem → List String
  | [] => []
  | item :: rest => typesInElementItem item ++ typesInElement rest

def typesInElementItem : ElementItem → List String
  | .simpleType _ => []
  | .complexType items => typesInType items
  | .alternative => []

def typesInType : List ComplexItem → List String
  | [] => []
  | item :: rest => typesInTypeItem item ++ typesInType rest

def typesInTypeItem : ComplexItem → List String
  | .group _ _ items => typesInGroup items
  | .reference _ _ => []
  | .attributeUse _ => []
  | .unsupported _ => []

end

/-- What content leads to: what it refers to, and the named types of its
elements. -/
inductive Place where
  | target (target : Target)
  | type (name : String)

/-- The places that some targets and some named types are. -/
def places (targets : List Target) (types : List String) : List Place :=
  targets.map .target ++ types.map .type

namespace Collection

variable (c : Collection)

/-- A named group leads to what is in the group that it begins with, and a named
complex type to what is in it. -/
inductive Leads : Place → Place → Prop
  | group {name : String} {order : Order} {occurs : Occurs}
    {items rest : List GroupItem} {place : Place}
    (hgroup :
      c.directory.groups.lookup name = some (.group order occurs items :: rest))
    (hplace : place ∈ places (targetsInGroup items) (typesInGroup items)) :
    Leads (.target (.group name)) place
  | type {name : String} {id : TypeId} {items : List ComplexItem}
    {place : Place} (hid : c.directory.types.lookup name = some id)
    (hitems : (id, items) ∈ c.complexTypes)
    (hplace : place ∈ places (targetsInType items) (typesInType items)) :
    Leads (.type name) place

/-- There is a reference to a top-level element at the places, or in what they
lead to. -/
def RefersTo (start : List Place) (name : String) : Prop :=
  ∃ place ∈ start,
    Relation.ReflTransGen c.Leads place (.target (.element name))

/-- There is a reference in the content of a top-level element: in its named
type, or in its inline type. -/
def Uses (parent name : String) : Prop :=
  ∃ decl, c.directory.elements.lookup parent = some decl ∧
    c.RefersTo (places (targetsInElement decl.items)
      (decl.head.type.toList ++ typesInElement decl.items)) name

/-- There is a reference in a named complex type. -/
def TypeUses (name : String) : Prop :=
  ∃ t ∈ c.complexTypes,
    c.RefersTo (places (targetsInType t.2) (typesInType t.2)) name

/-- Another top-level element refers to the element in its content. -/
def UsedByOther (name : String) : Prop := ∃ parent ≠ name, c.Uses parent name

section Uses

variable {c : Collection} {name : String} {targets : List Target}
  {types : List String}

theorem RefersTo.of_reaches (hreaches : c.directory.Reaches targets name) :
    c.RefersTo (places targets types) name := by
  obtain ⟨target, htarget, hpath⟩ := hreaches
  refine ⟨.target target,
    List.mem_append_left _ (List.mem_map_of_mem htarget), ?_⟩
  refine Relation.ReflTransGen.lift Place.target (fun first next hopens => ?_)
    _ _ hpath
  obtain ⟨hgroup, hnext⟩ := hopens
  exact .group hgroup (List.mem_append_left _ (List.mem_map_of_mem hnext))

/-- Targets lead to the element without any named type, or a named complex type
does.  The induction is on the path from its end: whoever comes to a named type
on the way has found one. -/
theorem RefersTo.reaches (hrefers : c.RefersTo (places targets types) name) :
    c.directory.Reaches targets name ∨
      ∃ t ∈ c.complexTypes, c.directory.Reaches (targetsInType t.2) name := by
  have hplaces {targets : List Target} {types : List String} {place : Place}
      (hplace : place ∈ places targets types) :
      (∃ target ∈ targets, place = .target target) ∨
        ∃ type, place = .type type := by
    rcases List.mem_append.mp hplace with hin | hin
    · obtain ⟨target, htarget, hplace⟩ := List.mem_map.mp hin
      exact .inl ⟨target, htarget, hplace.symm⟩
    · obtain ⟨type, -, hplace⟩ := List.mem_map.mp hin
      exact .inr ⟨type, hplace.symm⟩
  have hpath {place : Place} (hpath :
      Relation.ReflTransGen c.Leads place (.target (.element name))) :
      (∃ target, place = .target target ∧
        Relation.ReflTransGen c.directory.Opens target (.element name)) ∨
      ∃ t ∈ c.complexTypes,
        c.directory.Reaches (targetsInType t.2) name := by
    induction hpath using Relation.ReflTransGen.head_induction_on with
    | refl => exact .inl ⟨_, rfl, .refl⟩
    | head hleads _ ih =>
        rcases ih with ⟨target, rfl, hrest⟩ | hfound
        · cases hleads with
          | group hgroup hplace =>
              rcases hplaces hplace with ⟨_, htarget, ⟨⟩⟩ | ⟨_, ⟨⟩⟩
              exact .inl ⟨_, rfl, hrest.head ⟨hgroup, htarget⟩⟩
          | type hid hitems hplace =>
              rcases hplaces hplace with ⟨_, htarget, ⟨⟩⟩ | ⟨_, ⟨⟩⟩
              exact .inr ⟨_, hitems, _, htarget, hrest⟩
        · exact .inr hfound
  obtain ⟨place, hplace, hrest⟩ := hrefers
  rcases hpath hrest with ⟨target, rfl, hopens⟩ | hfound
  · rcases hplaces hplace with ⟨_, htarget, ⟨⟩⟩ | ⟨_, ⟨⟩⟩
    exact .inl ⟨target, htarget, hopens⟩
  · exact .inr hfound

/-- What conversion notes is what some content refers to. -/
theorem uses_iff (c : Collection) (name : String) :
    ((∃ t ∈ c.complexTypes, c.directory.Reaches (targetsInType t.2) name) ∨
        ∃ parent, c.directory.ReachedFrom parent name) ↔
      c.TypeUses name ∨ ∃ parent, c.Uses parent name := by
  have htype (hfound : ∃ t ∈ c.complexTypes,
      c.directory.Reaches (targetsInType t.2) name) : c.TypeUses name := by
    obtain ⟨t, ht, hreaches⟩ := hfound
    exact ⟨t, ht, .of_reaches hreaches⟩
  constructor
  · rintro (hfound | ⟨parent, decl, hdecl, hreaches⟩)
    · exact .inl (htype hfound)
    · exact .inr ⟨parent, decl, hdecl, .of_reaches hreaches⟩
  · rintro (⟨t, ht, hrefers⟩ | ⟨parent, decl, hdecl, hrefers⟩)
    · exact .inl (hrefers.reaches.elim (fun hreaches => ⟨t, ht, hreaches⟩) id)
    · rcases hrefers.reaches with hreaches | hfound
      · exact .inr ⟨parent, decl, hdecl, hreaches⟩
      · exact .inl hfound

end Uses

end Collection

end Declaration

namespace Model

/-- The element is the first one without the property. -/
def FirstWithout (m : Model) (skipped : String → Prop) (e : ElementDecl) :
    Prop :=
  ∃ earlier later, m.elements = earlier ++ e :: later ∧ ¬ skipped e.name ∧
    ∀ e' ∈ earlier, skipped e'.name

variable {m : Model} {skipped : String → Prop} {e : ElementDecl}

theorem outcome_findRoot (m : Model) (session : Session) :
    (outcome m.findRoot session).1 = m.root.map Prod.fst := by
  rw [findRoot]
  cases m.root with
  | error e => rfl
  | ok found =>
      obtain ⟨root, others⟩ := found
      cases others <;> rfl

theorem root_of_cons {root : ElementDecl} {others : List ElementDecl}
    (hindependent : m.independent = root :: others) :
    m.root = .ok (root, others) := by
  have hsome : m.elements.isEmpty = false := by
    by_contra hempty
    rw [Bool.not_eq_false, List.isEmpty_iff] at hempty
    rw [independent, hempty] at hindependent
    cases hindependent
  rw [Model.root, if_neg (by rw [hsome]; exact nofun), hindependent]

theorem root_of_nil (hindependent : m.independent = []) :
    ∃ error, m.root = .error error := by
  rw [root]
  by_cases hempty : m.elements.isEmpty
  · exact ⟨_, if_pos hempty⟩
  · rw [if_neg hempty, hindependent]
    exact ⟨_, rfl⟩

section Skipped

variable
  (hreferenced : ∀ name, m.isReferenced name = true ↔ skipped name)
  (session : Session)

include hreferenced

theorem independent_eq_cons_iff {root : ElementDecl} :
    (∃ others, m.independent = root :: others) ↔
      m.FirstWithout skipped root := by
  have hkept (e : ElementDecl) :
      (!m.isReferenced e.name) = true ↔ ¬ skipped e.name := by
    rw [← hreferenced, Bool.not_eq_true', Bool.not_eq_true]
  simp only [independent, List.filter_eq_cons_iff, hkept, not_not,
    FirstWithout]
  constructor
  · rintro ⟨others, earlier, later, hsplit, hskipped, hfirst, -⟩
    exact ⟨earlier, later, hsplit, hfirst, hskipped⟩
  · rintro ⟨earlier, later, hsplit, hfirst, hskipped⟩
    exact ⟨_, earlier, later, hsplit, hskipped, hfirst, rfl⟩

theorem independent_eq_nil_iff :
    m.independent = [] ↔ ∀ e ∈ m.elements, skipped e.name := by
  rw [independent, List.filter_eq_nil_iff]
  refine forall_congr' fun e => forall_congr' fun _ => ?_
  rw [← hreferenced, Bool.not_eq_true', Bool.not_eq_false]

/-- The root is the first top-level element that is not referred to. -/
theorem findRoot_eq_ok_iff :
    (outcome m.findRoot session).1 = .ok e ↔ m.FirstWithout skipped e := by
  rw [outcome_findRoot, ← independent_eq_cons_iff hreferenced]
  constructor
  · intro hroot
    cases hindependent : m.independent with
    | nil =>
        obtain ⟨error, herror⟩ := root_of_nil hindependent
        rw [herror] at hroot
        cases hroot
    | cons root others =>
        rw [root_of_cons hindependent] at hroot
        cases hroot
        exact ⟨others, rfl⟩
  · rintro ⟨others, hindependent⟩
    rw [root_of_cons hindependent]
    rfl

/-- There is no root if all top-level elements are referred to, and only then.
-/
theorem findRoot_eq_error_iff :
    (∃ error, (outcome m.findRoot session).1 = .error error) ↔
      ∀ e ∈ m.elements, skipped e.name := by
  rw [outcome_findRoot, ← independent_eq_nil_iff hreferenced]
  constructor
  · rintro ⟨error, herror⟩
    cases hindependent : m.independent with
    | nil => rfl
    | cons root others =>
        rw [root_of_cons hindependent] at herror
        cases herror
  · intro hindependent
    obtain ⟨error, herror⟩ := root_of_nil hindependent
    exact ⟨error, by rw [herror]; rfl⟩

end Skipped

end Model

namespace Declaration

theorem names_of_stands {b : Builder}
    {entries : List (String × ElementDeclaration)} {elements : List ElementDecl}
    (hstands : List.Forall₂ (Stands b) entries elements) :
    elements.map (·.name) = entries.map (·.1) := by
  induction hstands with
  | nil => rfl
  | cons hentry _ ih => rw [List.map_cons, List.map_cons, hentry.1, ih]

/-- The root of a converted model is the first of the declared elements to which
neither a named complex type refers nor the content of a top-level element; if
there is none, there is no root.  The first element that no other element uses
is the root unless it refers to itself or a named type refers to it. -/
theorem toModel_root {declarations : List TopLevel} {m : Model}
    (hmodel : toModel declarations = .ok m) :
    ∃ c, Collection.ofTopLevel declarations = .ok c ∧
      m.elements.map (·.name) = c.directory.elements.map (·.1) ∧
      (∀ session e, (outcome m.findRoot session).1 = .ok e ↔
        m.FirstWithout
          (fun name => c.TypeUses name ∨ ∃ parent, c.Uses parent name) e) ∧
      (∀ session, (∃ error, (outcome m.findRoot session).1 = .error error) ↔
        ∀ e ∈ m.elements, c.TypeUses e.name ∨ ∃ parent, c.Uses parent e.name) ∧
      (∀ session e, m.FirstWithout c.UsedByOther e →
        ((outcome m.findRoot session).1 = .ok e ↔
          ¬ c.TypeUses e.name ∧ ¬ c.Uses e.name e.name)) ∧
      ∀ session, (∀ e ∈ m.elements, c.UsedByOther e.name) →
        ∃ error, (outcome m.findRoot session).1 = .error error := by
  obtain ⟨c, b, hcollected, hrun, rfl⟩ := toModel_eq_ok_iff.mp hmodel
  have hholds := Collection.holds_ofTopLevel hcollected
  obtain ⟨-, -, hstands⟩ := sound_build hholds hrun
  have hreferenced (name : String) : b.model.isReferenced name = true ↔
      c.TypeUses name ∨ ∃ parent, c.Uses parent name := by
    rw [Model.isReferenced, List.contains_iff_mem,
      mem_references_build hholds hrun, Collection.uses_iff]
  have hother {name : String} (hused : c.UsedByOther name) :
      c.TypeUses name ∨ ∃ parent, c.Uses parent name := by
    obtain ⟨parent, -, huses⟩ := hused
    exact .inr ⟨parent, huses⟩
  refine ⟨c, hcollected, names_of_stands hstands,
    fun session e => Model.findRoot_eq_ok_iff hreferenced session,
    fun session => Model.findRoot_eq_error_iff hreferenced session,
    fun session e hfirst => ?_, fun session hall =>
      (Model.findRoot_eq_error_iff hreferenced session).mpr fun e he =>
        hother (hall e he)⟩
  rw [Model.findRoot_eq_ok_iff hreferenced session]
  obtain ⟨earlier, later, hsplit, hunused, hearlier⟩ := hfirst
  constructor
  · rintro ⟨earlier', later', -, hnot, -⟩
    exact ⟨fun htype => hnot (.inl htype),
      fun hown => hnot (.inr ⟨e.name, hown⟩)⟩
  · rintro ⟨htype, hown⟩
    refine ⟨earlier, later, hsplit, ?_, fun e' he' => hother (hearlier e' he')⟩
    rintro (hused | ⟨parent, huses⟩)
    · exact htype hused
    · by_cases hself : parent = e.name
      · exact hown (hself ▸ huses)
      · exact hunused ⟨parent, hself, huses⟩

namespace RootWitness

def tag (name : String) : ElementHead :=
  ⟨some name, none, none, {}, false, false⟩

/-- An inline type with an element that may be there, by reference. -/
def mayContain (name : String) : List ElementItem :=
  [.complexType [.group .sequence {}
    [.element ⟨none, some name, none, ⟨0, some 1⟩, false, false⟩ []]]]

/-- A leaf, and a tree that may have one. -/
def tree : List TopLevel :=
  [.element (tag "leaf") [], .element (tag "tree") (mayContain "leaf")]

/-- The tree is the root. -/
theorem tree_root : ∃ m c e, toModel tree = .ok m ∧
    Collection.ofTopLevel tree = .ok c ∧ e.name = "tree" ∧
    m.FirstWithout (fun name => c.TypeUses name ∨ ∃ parent, c.Uses parent name)
      e := by
  have hroot : (toModel tree).toOption.map (fun m =>
      (outcome m.findRoot (Session.ofSeed 1)).1.toOption.map (·.name)) =
        some (some "tree") := by
    decide +kernel
  obtain ⟨m, hm, hroot⟩ := Option.map_eq_some_iff.mp hroot
  obtain ⟨e, he, hname⟩ := Option.map_eq_some_iff.mp hroot
  obtain ⟨c, hcollected, -, hfirst, -⟩ := toModel_root (eq_ok_of_toOption hm)
  exact ⟨m, c, e, eq_ok_of_toOption hm, hcollected, hname,
    (hfirst (Session.ofSeed 1) e).mp (eq_ok_of_toOption he)⟩

/-- An element that may contain itself. -/
def loop : List TopLevel := [.element (tag "loop") (mayContain "loop")]

/-- No other element uses the element, and there is no root. -/
theorem loop_rootless : ∃ m c e, toModel loop = .ok m ∧
    Collection.ofTopLevel loop = .ok c ∧ m.FirstWithout c.UsedByOther e ∧
    ∀ session,
      (outcome m.findRoot session).1 = .error .noIndependentElements := by
  have hmodel : (toModel loop).toOption.map (fun m =>
      (m.elements, m.references)) = some ([{ name := "loop", type := 0 }],
        ["loop"]) := by
    decide +kernel
  obtain ⟨m, hm, hparts⟩ := Option.map_eq_some_iff.mp hmodel
  obtain ⟨helements, hreferences⟩ := Prod.mk.inj hparts
  have hcollected : Collection.ofTopLevel loop =
      .ok { directory := { elements :=
        [("loop", ⟨tag "loop", mayContain "loop"⟩)] } } := rfl
  refine ⟨m, _, { name := "loop", type := 0 }, eq_ok_of_toOption hm, hcollected,
    ⟨[], [], helements, ?_, nofun⟩, fun session => ?_⟩
  · rintro ⟨parent, hparent, decl, hdecl, -⟩
    have hnone : [("loop", (⟨tag "loop", mayContain "loop"⟩ :
        ElementDeclaration))].lookup parent = none := by
      rw [List.lookup_cons, beq_false_of_ne hparent]
      rfl
    rw [hnone] at hdecl
    cases hdecl
  · rw [Model.outcome_findRoot, Model.root, Model.independent, helements]
    simp [Model.isReferenced, hreferences, Except.map]

end RootWitness

end Declaration

end Specimen
