/-
Declarations in another order.  The types get other numbers, but whatever is
declared is found under the same names, and it is converted to the same.
-/
import Specimen.Proofs.Building
import Specimen.Proofs.ReferenceChains

namespace Specimen

namespace Declaration

def simpleNames (declarations : List TopLevel) : List String :=
  (declarations.filterMap TopLevel.simpleType?).map (·.1)

def complexNames (declarations : List TopLevel) : List String :=
  (declarations.filterMap TopLevel.complexType?).map (·.1)

def groupNames (declarations : List TopLevel) : List String :=
  (declarations.filterMap TopLevel.group?).map (·.1)

def elementNames (declarations : List TopLevel) : List String :=
  (declarations.filterMap TopLevel.element?).map (·.1)

/-- No two declarations of one kind share a name. -/
structure Distinct (declarations : List TopLevel) : Prop where
  simpleTypes : (simpleNames declarations).Nodup
  complexTypes : (complexNames declarations).Nodup
  groups : (groupNames declarations).Nodup
  elements : (elementNames declarations).Nodup

/-- No simple type has the name of a complex type.  Both kinds stand in one
table of names, where the last declaration of a name counts. -/
def TypesApart (declarations : List TopLevel) : Prop :=
  (simpleNames declarations).Disjoint (complexNames declarations)

/-- A name stands for at most one type, one group and one top-level element. -/
structure Unambiguous (declarations : List TopLevel) : Prop where
  types : ((declarations.filterMap TopLevel.type?).map (·.1)).Nodup
  groups : (groupNames declarations).Nodup
  elements : (elementNames declarations).Nodup

def declaredContent (declarations : List TopLevel) : Owner → Option Content
  | .type name =>
    ((declarations.filterMap TopLevel.type?).lookup name).map .type
  | .element name =>
    match (declarations.filterMap TopLevel.element?).lookup name with
    | some decl =>
      if decl.head.type.isNone then some (.element decl.items) else none
    | none => none

/-- What references lead to the declaration. -/
def TopLevel.target? : TopLevel → Option Target
  | group name _ => name.map .group
  | element head _ => head.name.map .element
  | _ => none

def TopLevel.targets : TopLevel → List Target
  | group _ items => targetsInGroup items
  | element _ items => targetsInElement items
  | _ => []

/-- A group or an element of the declarations refers to another one. -/
def Contains (declarations : List TopLevel) (source target : Target) : Prop :=
  ∃ d ∈ declarations, d.target? = some source ∧ target ∈ d.targets

/-- The types that have numbers before anything is built. -/
def typeOrigins (declarations : List TopLevel) : List Origin :=
  (declarations.filterMap TopLevel.type?).map fun t => .owned (.type t.1)

variable {declarations declarations' : List TopLevel} {c c' : Collection}
  {name : String}

/-- The order does not matter where names are distinct. -/
theorem lookup_perm {α : Type} {l l' : List (String × α)} (hperm : l.Perm l')
    (hnodup : (l.map (·.1)).Nodup) (name : String) :
    l'.lookup name = l.lookup name := by
  have hnodup' : (l'.map (·.1)).Nodup :=
    (hperm.map (·.1)).nodup_iff.mp hnodup
  ext a
  constructor
  · exact fun hlookup =>
      lookup_of_mem hnodup (hperm.mem_iff.mpr (mem_of_lookup hlookup))
  · exact fun hlookup =>
      lookup_of_mem hnodup' (hperm.mem_iff.mp (mem_of_lookup hlookup))

/-- The names of types are those of simple and of complex types. -/
theorem typeNames_perm (declarations : List TopLevel) :
    ((declarations.filterMap TopLevel.type?).map (·.1)).Perm
      (simpleNames declarations ++ complexNames declarations) := by
  induction declarations with
  | nil => exact .nil
  | cons d rest ih =>
      cases d with
      | simpleType name =>
          cases name with
          | none => exact ih
          | some name => exact ih.cons name
      | complexType name =>
          cases name with
          | none => exact ih
          | some name => exact (ih.cons name).trans List.perm_middle.symm
      | group => exact ih
      | element => exact ih
      | unsupported => exact ih

theorem Distinct.unambiguous (hdistinct : Distinct declarations)
    (hapart : TypesApart declarations) : Unambiguous declarations where
  types := (typeNames_perm declarations).nodup_iff.mpr
    (hdistinct.simpleTypes.append hdistinct.complexTypes hapart)
  groups := hdistinct.groups
  elements := hdistinct.elements

theorem Unambiguous.perm (hunambiguous : Unambiguous declarations)
    (hperm : declarations.Perm declarations') : Unambiguous declarations' where
  types := ((hperm.filterMap _).map _).nodup_iff.mp hunambiguous.types
  groups := ((hperm.filterMap _).map _).nodup_iff.mp hunambiguous.groups
  elements := ((hperm.filterMap _).map _).nodup_iff.mp hunambiguous.elements

theorem declaredContent_perm (hunambiguous : Unambiguous declarations)
    (hperm : declarations.Perm declarations') :
    declaredContent declarations' = declaredContent declarations := by
  funext owner
  cases owner with
  | type name =>
      rw [declaredContent, declaredContent,
        lookup_perm (hperm.filterMap _) hunambiguous.types]
  | element name =>
      rw [declaredContent, declaredContent,
        lookup_perm (hperm.filterMap _) hunambiguous.elements]

theorem Contains.perm (hperm : declarations.Perm declarations')
    {source target : Target}
    (hcontains : Contains declarations' source target) :
    Contains declarations source target := by
  obtain ⟨d, hd, hcontains⟩ := hcontains
  exact ⟨d, hperm.mem_iff.mpr hd, hcontains⟩

namespace Collection

/-- Whether a declaration can be collected does not depend on the others. -/
theorem exists_add {d : TopLevel} {c₁ : Collection} (hadd : c.add d = .ok c₁)
    (c' : Collection) : ∃ c₂, c'.add d = .ok c₂ := by
  cases d with
  | simpleType name =>
      cases name with
      | none => cases hadd
      | some name => exact ⟨_, rfl⟩
  | complexType name =>
      cases name with
      | none => cases hadd
      | some name => exact ⟨_, rfl⟩
  | group name =>
      cases name with
      | none => cases hadd
      | some name => exact ⟨_, rfl⟩
  | element head =>
      simp only [add] at hadd ⊢
      cases hname : head.name with
      | none =>
          rw [hname] at hadd
          cases hadd
      | some name => exact ⟨_, rfl⟩
  | unsupported => cases hadd

theorem exists_foldlM_iff :
    (∃ c', declarations.foldlM add c = .ok c') ↔
      ∀ d ∈ declarations, ∃ c', c.add d = .ok c' := by
  induction declarations generalizing c with
  | nil => exact ⟨fun _ => nofun, fun _ => ⟨c, rfl⟩⟩
  | cons d declarations ih =>
      rw [List.forall_mem_cons, List.foldlM_cons]
      cases hadd : c.add d with
      | error e =>
          refine ⟨?_, ?_⟩
          · rintro ⟨_, ⟨⟩⟩
          · rintro ⟨⟨_, ⟨⟩⟩, _⟩
      | ok c₁ =>
          change (∃ c', declarations.foldlM add c₁ = .ok c') ↔ _
          rw [ih]
          constructor
          · refine fun hall => ⟨⟨c₁, rfl⟩, fun d' hd' => ?_⟩
            obtain ⟨_, hd'⟩ := hall d' hd'
            exact exists_add hd' c
          · rintro ⟨-, hall⟩ d' hd'
            obtain ⟨_, hd'⟩ := hall d' hd'
            exact exists_add hd' c₁

theorem ofTopLevel_perm (hperm : declarations.Perm declarations')
    (hcollected : ofTopLevel declarations = .ok c) :
    ∃ c', ofTopLevel declarations' = .ok c' := by
  have hall := exists_foldlM_iff.mp ⟨c, hcollected⟩
  exact exists_foldlM_iff.mpr fun d hd => hall d (hperm.mem_iff.mpr hd)

namespace Holds

/-- Numbers are given in the order of the declarations. -/
theorem mem_types (hholds : c.Holds declarations) {id : TypeId} :
    (name, id) ∈ c.directory.types ↔ ∃ content,
      (declarations.filterMap TopLevel.type?)[id]? = some (name, content) := by
  rw [hholds.types, List.mem_reverse, List.mem_map]
  constructor
  · rintro ⟨⟨⟨_, content⟩, _⟩, ht, ⟨⟩⟩
    exact ⟨content, getElem?_of_mem_namedTypes ht⟩
  · rintro ⟨content, hget⟩
    exact ⟨((name, content), id), List.mem_zipIdx_iff_getElem?.mpr hget, rfl⟩

theorem keys_types (hholds : c.Holds declarations) :
    c.directory.types.map (·.1) =
      ((declarations.filterMap TopLevel.type?).map (·.1)).reverse := by
  rw [hholds.types, List.map_reverse, List.map_map]
  have hnames : (declarations.filterMap TopLevel.type?).map (·.1) =
      ((namedTypes declarations).map (·.1)).map (·.1) := by
    rw [namedTypes, List.zipIdx_map_fst]
  rw [hnames, List.map_map]
  rfl

theorem typeOrigins_eq (hholds : c.Holds declarations) :
    c.directory.types.reverse.map (fun t => .owned (.type t.1)) =
      typeOrigins declarations := by
  have horigins : typeOrigins declarations =
      (c.directory.types.map (·.1)).reverse.map (.owned ∘ .type) := by
    rw [hholds.keys_types, List.reverse_reverse, List.map_map]
    rfl
  rw [horigins, ← List.map_reverse, List.map_map]
  rfl

theorem lookup_types_eq_some_iff (hholds : c.Holds declarations)
    (hunambiguous : Unambiguous declarations) {id : TypeId} :
    c.directory.types.lookup name = some id ↔ ∃ content,
      (declarations.filterMap TopLevel.type?)[id]? = some (name, content) := by
  have hnodup : (c.directory.types.map (·.1)).Nodup := by
    rw [hholds.keys_types]
    exact (List.reverse_perm _).nodup_iff.mpr hunambiguous.types
  rw [← hholds.mem_types]
  exact ⟨mem_of_lookup, lookup_of_mem hnodup⟩

theorem isSome_lookup_types (hholds : c.Holds declarations) :
    (c.directory.types.lookup name).isSome ↔
      (declaredContent declarations (.type name)).isSome := by
  rw [declaredContent, Option.isSome_map, lookup_isSome_iff_mem,
    lookup_isSome_iff_mem, hholds.keys_types, List.mem_reverse]

theorem declaredContent_of_getElem? (hunambiguous : Unambiguous declarations)
    {content : TypeContent} {id : TypeId}
    (hget : (declarations.filterMap TopLevel.type?)[id]? =
      some (name, content)) :
    declaredContent declarations (.type name) = some (.type content) := by
  rw [declaredContent,
    lookup_of_mem hunambiguous.types (List.mem_of_getElem? hget)]
  rfl

theorem declaredContent_element (hholds : c.Holds declarations)
    {decl : ElementDeclaration}
    (hdecl : c.directory.elements.lookup name = some decl)
    (htype : decl.head.type = none) :
    declaredContent declarations (.element name) =
      some (.element decl.items) := by
  rw [declaredContent, ← hholds.elements, hdecl]
  simp [htype]

/-- What the directory contains is declared. -/
theorem contains (hholds : c.Holds declarations) {source target : Target}
    (hcontains : c.directory.Contains source target) :
    Contains declarations source target := by
  cases source with
  | group name =>
      obtain ⟨items, hitems, htarget⟩ := hcontains
      have hmem := mem_of_lookup hitems
      rw [hholds.groups, List.mem_reverse, List.mem_filterMap] at hmem
      obtain ⟨d, hd, hgroup⟩ := hmem
      cases d with
      | group =>
          obtain ⟨_, rfl, ⟨⟩⟩ := Option.map_eq_some_iff.mp hgroup
          exact ⟨_, hd, rfl, htarget⟩
      | simpleType | complexType | element | unsupported => cases hgroup
  | element name =>
      obtain ⟨decl, hdecl, htarget⟩ := hcontains
      have hmem := mem_of_lookup hdecl
      rw [hholds.elements, List.mem_filterMap] at hmem
      obtain ⟨d, hd, helement⟩ := hmem
      cases d with
      | element =>
          obtain ⟨_, hname, ⟨⟩⟩ := Option.map_eq_some_iff.mp helement
          exact ⟨_, hd, by rw [TopLevel.target?, hname]; rfl, htarget⟩
      | simpleType | complexType | group | unsupported => cases helement

end Holds

/-- An element that has a named type has no other parts. -/
def Plain (c : Collection) : Prop :=
  ∀ name decl, c.directory.elements.lookup name = some decl →
    decl.head.type.isSome → decl.items = []

theorem Plain.unentangled (hplain : c.Plain) : c.directory.Unentangled := by
  have hrefers (name other : String) : ¬ c.directory.Refers name other := by
    rintro ⟨⟨decl, hdecl, htype, hother⟩, -⟩
    rw [hplain name decl hdecl htype] at hother
    exact List.not_mem_nil hother
  intro name htrans
  obtain ⟨other, hfirst, -⟩ := Relation.TransGen.head'_iff.mp htrans
  exact hrefers name other hfirst

/-- An owner that is converted alone does not meet the bound on references. -/
theorem Plain.alone_ne_endless (hplain : c.Plain) (content : Content)
    (name : String) : c.directory.alone content ≠ .error (.endless name) := by
  have hroom := room_lt_depth
    (show c.directory.untouched c.directory.waiting ≤ _ by
      simpa [Directory.untouched, Directory.elementNames] using
        remaining_le c.directory.elementNames _)
  have houtcome := alongside_convert Directory.boundless_supports
    (Directory.follow_within hplain.unentangled _ _ hroom hroom
      (Directory.leads_nil fun _ => True) (Directory.encloses_nil _))
    (fun _ => trivial) content _ _ ⟨rfl, le_rfl⟩
  unfold Directory.alone
  generalize (content.convert c.directory _ []).run _ = result at houtcome ⊢
  cases houtcome with
  | ok => rintro ⟨⟩
  | both hmay =>
      rintro ⟨⟩
      exact hmay.2
  | first hmay => exact hmay.elim
  | second hmay => exact hmay.elim

end Collection

section Collected

variable (hholds : c.Holds declarations) (hholds' : c'.Holds declarations')
  (hunambiguous : Unambiguous declarations)
  (hperm : declarations.Perm declarations')

include hholds hholds' hunambiguous hperm

/-- What is collected in one order is alike what is collected in another. -/
theorem alike_collected (hplain : c.Plain) :
    Alike (declaredContent declarations) c.directory c'.directory where
  types name := by
    rw [Bool.eq_iff_iff, hholds.isSome_lookup_types,
      hholds'.isSome_lookup_types, declaredContent_perm hunambiguous hperm]
  groups name := by
    have hreverse := List.reverse_perm (declarations.filterMap TopLevel.group?)
    have hgroups := hunambiguous.groups
    rw [hholds.groups, hholds'.groups]
    exact lookup_perm (hreverse.trans ((hperm.filterMap _).trans
      (List.reverse_perm _).symm)) ((hreverse.map _).nodup_iff.mpr hgroups) name
  elements name := by
    rw [hholds.elements, hholds'.elements]
    exact lookup_perm (hperm.filterMap _) hunambiguous.elements name
  nodup := hholds.elements ▸ hunambiguous.elements
  standing name id hlookup := by
    obtain ⟨content, hget⟩ :=
      (hholds.lookup_types_eq_some_iff hunambiguous).mp hlookup
    have horigin : (typeOrigins declarations)[id]? =
        some (.owned (.type name)) := by
      rw [typeOrigins, List.getElem?_map, hget]
      rfl
    rw [Directory.standing, hholds.typeOrigins_eq]
    exact getElem?_of_le (List.prefix_append _ _) horigin
  content _ _ := hholds.declaredContent_element
  empty := hplain
  ends := hplain.alone_ne_endless

omit hholds in
theorem collected_contents : Collected (declaredContent declarations) c' := by
  have hunambiguous' := hunambiguous.perm hperm
  have hcontent := declaredContent_perm hunambiguous hperm
  have hnamed {t : (String × TypeContent) × TypeId}
      (ht : t ∈ namedTypes declarations') :
      c'.directory.types.lookup t.1.1 = some t.2 ∧
        declaredContent declarations (.type t.1.1) = some (.type t.1.2) := by
    have hget := getElem?_of_mem_namedTypes ht
    rw [← hcontent]
    exact ⟨(hholds'.lookup_types_eq_some_iff hunambiguous').mpr ⟨_, hget⟩,
      Collection.Holds.declaredContent_of_getElem? hunambiguous' hget⟩
  refine ⟨fun x hx => ?_, fun x hx => ?_, hholds'.nodup, fun entry hentry => ?_,
    fun name id hlookup => ?_⟩
  · rw [hholds'.simpleTypes] at hx
    obtain ⟨⟨⟨name, content⟩, id⟩, ht, hsimple, rfl⟩ := mem_contents.mp hx
    cases content with
    | simple items =>
        cases hsimple
        exact ⟨name, hnamed ht⟩
    | complex => cases hsimple
  · rw [hholds'.complexTypes] at hx
    obtain ⟨⟨⟨name, content⟩, id⟩, ht, hcomplex, rfl⟩ := mem_contents.mp hx
    cases content with
    | simple => cases hcomplex
    | complex items =>
        cases hcomplex
        exact ⟨name, hnamed ht⟩
  · refine lookup_of_mem ?_ hentry
    rw [hholds'.elements]
    exact hunambiguous'.elements
  · obtain ⟨content, hget⟩ :=
      (hholds'.lookup_types_eq_some_iff hunambiguous').mp hlookup
    have ht : ((name, content), id) ∈ namedTypes declarations' :=
      List.mem_zipIdx_iff_getElem?.mpr hget
    rw [hholds'.simpleTypes, hholds'.complexTypes, List.mem_append,
      List.mem_map, List.mem_map]
    cases content with
    | simple items =>
        exact .inl ⟨(id, items), mem_contents.mpr ⟨_, ht, rfl, rfl⟩, rfl⟩
    | complex items =>
        exact .inr ⟨(id, items), mem_contents.mpr ⟨_, ht, rfl, rfl⟩, rfl⟩

omit hholds in
/-- Before anything is built the named types have their numbers. -/
theorem progress_collected (D : Directory) :
    Progress (declaredContent declarations) D c'.directory (fun _ => False)
      (typeOrigins declarations') { model := c'.model } := by
  have hunambiguous' := hunambiguous.perm hperm
  have hmem {origin : Origin} (horigin : origin ∈ typeOrigins declarations') :
      ∃ content name, origin = .owned (.type name) ∧
        declaredContent declarations (.type name) = some content := by
    obtain ⟨t, ht, rfl⟩ := List.mem_map.mp horigin
    obtain ⟨id, hget⟩ := List.mem_iff_getElem?.mp ht
    rw [← declaredContent_perm hunambiguous hperm]
    exact ⟨_, t.1, rfl,
      Collection.Holds.declaredContent_of_getElem? hunambiguous' hget⟩
  have hget {id : TypeId} {origin : Origin}
      (hget : (typeOrigins declarations')[id]? = some origin) :
      ∃ name, origin = .owned (.type name) := by
    obtain ⟨_, name, hname, -⟩ := hmem (List.mem_of_getElem? hget)
    exact ⟨name, hname⟩
  have hmodel := hholds'.model
  refine ⟨?_, fun origin horigin => ?_, ?_, fun owner i hi => ?_,
    fun name hname => ?_, fun _ => False.elim⟩
  · constructor
    · simp [typeOrigins, hmodel, namedTypes]
    · have hinjective : Function.Injective (Origin.owned ∘ Owner.type) :=
        fun _ _ hsame => Owner.type.inj (Origin.owned.inj hsame)
      have hnodup := hunambiguous'.types.map hinjective
      rwa [List.map_map] at hnodup
    · rw [hmodel]
      constructor
      · rintro _ ⟨⟩
      · rintro _ _ ⟨⟩
    · intro name id hlookup
      obtain ⟨content, hget⟩ :=
        (hholds'.lookup_types_eq_some_iff hunambiguous').mp hlookup
      rw [typeOrigins, List.getElem?_map, hget]
      rfl
    · intro name id
      rw [hmodel]
      constructor
      · rintro ⟨⟩
      · intro hbuiltin
        obtain ⟨_, ⟨⟩⟩ := hget hbuiltin
    · intro name id hbuiltin
      obtain ⟨_, ⟨⟩⟩ := hget hbuiltin
    · rintro _ _ ⟨⟩
    · intro name id helement
      obtain ⟨_, ⟨⟩⟩ := hget helement
    · intro name id hinline
      obtain ⟨_, _, ⟨⟩, _⟩ := hmem hinline
  · obtain ⟨_, name, rfl, hcontent⟩ := hmem horigin
    exact .owned hcontent
  · rw [hmodel]
    rintro _ ⟨⟩
  · obtain ⟨_, _, ⟨⟩, _⟩ := hmem hi
  · obtain ⟨_, _, ⟨⟩, _⟩ := hmem hname

end Collected

end Declaration

end Specimen
