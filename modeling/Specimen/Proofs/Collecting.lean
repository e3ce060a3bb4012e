/-
What is collected of declarations: the named types are numbered in the order in
which they are declared, and of every kind of declaration nothing is left out.
-/
import Specimen.Declaration.Directory

namespace Specimen

namespace Declaration

/-- What is declared of a named type. -/
inductive TypeContent where
  | simple (items : List SimpleItem)
  | complex (items : List ComplexItem)

def TypeContent.simple? : TypeContent → Option (List SimpleItem)
  | simple items => some items
  | complex _ => none

def TypeContent.complex? : TypeContent → Option (List ComplexItem)
  | simple _ => none
  | complex items => some items

namespace TopLevel

def type? : TopLevel → Option (String × TypeContent)
  | simpleType name items => name.map (·, .simple items)
  | complexType name items => name.map (·, .complex items)
  | _ => none

def simpleType? : TopLevel → Option (String × List SimpleItem)
  | simpleType name items => name.map (·, items)
  | _ => none

def complexType? : TopLevel → Option (String × List ComplexItem)
  | complexType name items => name.map (·, items)
  | _ => none

def group? : TopLevel → Option (String × List GroupItem)
  | group name items => name.map (·, items)
  | _ => none

def element? : TopLevel → Option (String × ElementDeclaration)
  | element head items => head.name.map (·, ⟨head, items⟩)
  | _ => none

end TopLevel

/-- The named types in the order of their numbers. -/
def namedTypes (declarations : List TopLevel) :
    List ((String × TypeContent) × TypeId) :=
  (declarations.filterMap TopLevel.type?).zipIdx

/-- The collection holds what is declared. -/
structure Collection.Holds (c : Collection) (declarations : List TopLevel) :
    Prop where
  types : c.directory.types =
    ((namedTypes declarations).map fun t => (t.1.1, t.2)).reverse
  groups : c.directory.groups = (declarations.filterMap TopLevel.group?).reverse
  elements : c.directory.elements = declarations.filterMap TopLevel.element?
  simpleTypes : c.simpleTypes = (namedTypes declarations).filterMap fun t =>
    t.1.2.simple?.map (t.2, ·)
  complexTypes : c.complexTypes = (namedTypes declarations).filterMap fun t =>
    t.1.2.complex?.map (t.2, ·)
  model : c.model =
    { types :=
        List.replicate (namedTypes declarations).length (.builtin .anyType) }

namespace Collection

variable {c c' : Collection} {declarations : List TopLevel}

theorem namedTypes_append (declarations : List TopLevel) (d : TopLevel) :
    namedTypes (declarations ++ [d]) = namedTypes declarations ++
      d.type?.toList.map (·, (namedTypes declarations).length) := by
  unfold namedTypes
  rw [List.filterMap_append, List.zipIdx_append]
  cases htype : d.type? <;> simp [htype]

theorem Holds.add (hholds : c.Holds declarations) {d : TopLevel}
    (hadd : c.add d = .ok c') : c'.Holds (declarations ++ [d]) := by
  obtain ⟨htypes, hgroups, helements, hsimple, hcomplex, hmodel⟩ := hholds
  cases d with
  | simpleType name items =>
      cases name with
      | none => cases hadd
      | some name =>
          cases hadd
          constructor <;> simp [namedTypes_append,
            TopLevel.type?, TopLevel.group?, TopLevel.element?,
            TypeContent.simple?, TypeContent.complex?, htypes, hgroups,
            helements, hsimple, hcomplex, hmodel, List.replicate_succ']
  | complexType name items =>
      cases name with
      | none => cases hadd
      | some name =>
          cases hadd
          constructor <;> simp [namedTypes_append,
            TopLevel.type?, TopLevel.group?, TopLevel.element?,
            TypeContent.simple?, TypeContent.complex?, htypes, hgroups,
            helements, hsimple, hcomplex, hmodel, List.replicate_succ']
  | group name items =>
      cases name with
      | none => cases hadd
      | some name =>
          cases hadd
          constructor <;> simp [namedTypes_append, TopLevel.type?,
            TopLevel.group?, TopLevel.element?, htypes, hgroups, helements,
            hsimple, hcomplex, hmodel]
  | element head items =>
      simp only [Collection.add] at hadd
      split at hadd
      · rename_i name hname
        cases hadd
        constructor <;> simp [namedTypes_append, TopLevel.type?,
          TopLevel.group?, TopLevel.element?, hname, htypes, hgroups,
          helements, hsimple, hcomplex, hmodel]
      · cases hadd
  | unsupported construct => cases hadd

theorem Holds.foldlM (hholds : c.Holds declarations) {more : List TopLevel}
    (hfold : more.foldlM Collection.add c = .ok c') :
    c'.Holds (declarations ++ more) := by
  induction more generalizing c declarations with
  | nil =>
      cases hfold
      simpa using hholds
  | cons d more ih =>
      rw [List.foldlM_cons] at hfold
      cases hadd : c.add d with
      | error e =>
          rw [hadd] at hfold
          cases hfold
      | ok c₁ =>
          rw [hadd] at hfold
          simpa using ih (hholds.add hadd) hfold

/-- Whatever is declared is collected. -/
theorem holds_ofTopLevel (hcollected : ofTopLevel declarations = .ok c) :
    c.Holds declarations := by
  have hnothing : Holds {} [] := ⟨rfl, rfl, rfl, rfl, rfl, rfl⟩
  exact hnothing.foldlM hcollected

end Collection

/-- The number of the last type that is declared with a name. -/
def declaredType (declarations : List TopLevel) (name : String) :
    Option TypeId :=
  ((namedTypes declarations).map fun t => (t.1.1, t.2)).reverse.lookup name

section Collected

variable {declarations : List TopLevel} {c : Collection}

theorem getElem?_of_mem_namedTypes {t : (String × TypeContent) × TypeId}
    (ht : t ∈ namedTypes declarations) :
    (declarations.filterMap TopLevel.type?)[t.2]? = some t.1 :=
  List.mem_zipIdx_iff_getElem?.mp ht

theorem pairwise_namedTypes (declarations : List TopLevel) :
    (namedTypes declarations).Pairwise fun t u => t.2 ≠ u.2 := by
  have hnodup : ((namedTypes declarations).map (·.2)).Nodup := by
    unfold namedTypes
    rw [List.zipIdx_map_snd]
    exact List.nodup_range'
  exact List.pairwise_map.mp hnodup

/-- The named types of one sort, with their numbers. -/
theorem mem_contents {α : Type} {content? : TypeContent → Option α}
    {x : TypeId × α} :
    x ∈ (namedTypes declarations).filterMap
        (fun t => (content? t.1.2).map (t.2, ·)) ↔
      ∃ t ∈ namedTypes declarations, content? t.1.2 = some x.2 ∧ t.2 = x.1 := by
  simp only [List.mem_filterMap, Option.map_eq_some_iff]
  constructor
  · rintro ⟨t, ht, a, ha, rfl⟩
    exact ⟨t, ht, ha, rfl⟩
  · rintro ⟨t, ht, ha, hid⟩
    exact ⟨t, ht, x.2, ha, Prod.ext hid rfl⟩

theorem nodup_contents {α : Type} (content? : TypeContent → Option α) :
    (((namedTypes declarations).filterMap
      (fun t => (content? t.1.2).map (t.2, ·))).map (·.1)).Nodup := by
  refine List.pairwise_map.mpr (List.pairwise_filterMap.mpr
    ((pairwise_namedTypes declarations).imp fun {t u} hne x hx y hy => ?_))
  obtain ⟨_, -, rfl⟩ := Option.map_eq_some_iff.mp hx
  obtain ⟨_, -, rfl⟩ := Option.map_eq_some_iff.mp hy
  exact hne

/-- The numbers of the named types are all different. -/
theorem Collection.Holds.nodup (hholds : c.Holds declarations) :
    (c.simpleTypes.map (·.1) ++ c.complexTypes.map (·.1)).Nodup := by
  rw [hholds.simpleTypes, hholds.complexTypes, List.nodup_append]
  refine ⟨nodup_contents _, nodup_contents _, ?_⟩
  intro id hsimple id' hcomplex
  obtain ⟨x, hx, rfl⟩ := List.mem_map.mp hsimple
  obtain ⟨y, hy, rfl⟩ := List.mem_map.mp hcomplex
  obtain ⟨t, ht, hsimple, hid⟩ := mem_contents.mp hx
  obtain ⟨u, hu, hcomplex, hid'⟩ := mem_contents.mp hy
  rw [← hid, ← hid']
  intro hsame
  have htypes := getElem?_of_mem_namedTypes ht
  rw [hsame, getElem?_of_mem_namedTypes hu] at htypes
  have hcontent : u.1.2 = t.1.2 := by rw [Option.some.inj htypes]
  rw [hcontent] at hcomplex
  cases hkind : t.1.2 <;>
    simp [hkind, TypeContent.simple?, TypeContent.complex?] at hsimple hcomplex

/-- The named types have numbers before they have definitions. -/
theorem Collection.Holds.lt_length (hholds : c.Holds declarations)
    {id : TypeId}
    (hid : id ∈ c.simpleTypes.map (·.1) ++ c.complexTypes.map (·.1)) :
    id < c.model.types.length := by
  rw [hholds.simpleTypes, hholds.complexTypes, List.mem_append, List.mem_map,
    List.mem_map] at hid
  have hnamed {t : (String × TypeContent) × TypeId}
      (ht : t ∈ namedTypes declarations) : t.2 < c.model.types.length := by
    rw [hholds.model, List.length_replicate, namedTypes, List.length_zipIdx]
    exact (List.getElem?_eq_some_iff.mp (getElem?_of_mem_namedTypes ht)).1
  rcases hid with ⟨x, hx, rfl⟩ | ⟨x, hx, rfl⟩ <;>
    obtain ⟨t, ht, -, hid⟩ := mem_contents.mp hx <;>
    exact hid ▸ hnamed ht

theorem Collection.Holds.lookup_types (hholds : c.Holds declarations)
    (name : String) :
    c.directory.types.lookup name = declaredType declarations name := by
  rw [hholds.types, declaredType]

end Collected

end Declaration

end Specimen
