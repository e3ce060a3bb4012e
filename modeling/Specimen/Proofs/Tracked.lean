/-
The origins of the types of a model while it is built.  They are kept beside the
builder: every number has its origin, and no origin comes twice.
-/
import Mathlib.Order.Nat
import Specimen.Proofs.Origins

namespace Specimen

namespace Declaration

/-- A builtin type has its definition; one that is derived restricts its
primitive. -/
inductive Standard (origins : List Origin) (types : List TypeDef)
    (name : String) (id : TypeId) : Prop where
  | primitive {kind : Kind}
    (hbuiltin : SimpleType.builtin? name = some ⟨kind, .none⟩)
    (hdefinition : types[id]? = some (.builtin kind))
  | derived {type : SimpleType} {base : TypeId}
    (hbuiltin : SimpleType.builtin? name = some type)
    (hfacets : type.facets ≠ .none)
    (hdefinition : types[id]? = some (.restriction base type.facets))
    (hbase : origins[base]? = some (.builtin type.kind.name))

namespace Builder

/-- The builder has types of the origins. -/
structure Tracked (D : Directory) (origins : List Origin) (b : Builder) :
    Prop where
  length : origins.length = b.model.types.length
  nodup : origins.Nodup
  furnished : b.model.Furnished
  declared : ∀ name id, D.types.lookup name = some id →
    origins[id]? = some (.owned (.type name))
  builtin : ∀ name id, b.model.builtins.lookup name = some id ↔
    origins[id]? = some (.builtin name)
  standard : ∀ name id, origins[id]? = some (.builtin name) →
    Standard origins b.model.types name id
  element : ∀ name id, b.elementTypes.lookup name = some id →
    ∃ decl, D.elements.lookup name = some decl ∧
      origins[id]? = some (D.elementOrigin name decl)
  registered : ∀ name id, origins[id]? = some (.owned (.element name)) →
    b.elementTypes.lookup name = some id
  opened : ∀ name id, .inline (.element name) id ∈ origins →
    .owned (.element name) ∈ origins

/-- Types come behind those that are there, and none of these changes. -/
structure Grows (origins : List Origin) (b : Builder)
    (origins' : List Origin) (b' : Builder) : Prop where
  types : b.model.types <+: b'.model.types
  origins : origins <+: origins'
  references : ∀ name ∈ b.model.references, name ∈ b'.model.references

/-- A type is found, with what has to be added for it. -/
structure Obtains (D : Directory) (origin : Origin) (origins : List Origin)
    (b : Builder) (origins' : List Origin) (id : TypeId) (b' : Builder) :
    Prop where
  tracked : b'.Tracked D origins'
  grows : Grows origins b origins' b'
  references : b'.model.references = b.model.references
  comes : origins'[id]? = some origin
  new : ∀ other ∈ origins', other ∈ origins ∨
    ∃ name, origin.Asks name ∧ other = .builtin name

variable {D : Directory} {origins origins' origins'' : List Origin}
  {b b' b'' : Builder}

theorem Grows.refl (origins : List Origin) (b : Builder) :
    Grows origins b origins b :=
  ⟨List.prefix_rfl, List.prefix_rfl, fun _ => id⟩

theorem Grows.trans (hfirst : Grows origins b origins' b')
    (hsecond : Grows origins' b' origins'' b'') :
    Grows origins b origins'' b'' where
  types := hfirst.types.trans hsecond.types
  origins := hfirst.origins.trans hsecond.origins
  references name hname :=
    hsecond.references name (hfirst.references name hname)

theorem getElem?_concat_eq_some_iff {α : Type} {l : List α}
    {a c : α} {i : Nat} :
    (l ++ [a])[i]? = some c ↔ l[i]? = some c ∨ i = l.length ∧ a = c := by
  rcases Nat.lt_trichotomy i l.length with hlt | rfl | hgt
  · rw [List.getElem?_append_left hlt]
    simp [hlt.ne]
  · simp
  · rw [List.getElem?_eq_none (by simp; omega),
      List.getElem?_eq_none hgt.le]
    simp [hgt.ne']

theorem standard_mono {types types' : List TypeDef} {name : String}
    {id : TypeId} (hstandard : Standard origins types name id)
    (hdefinition : ∀ d, types[id]? = some d → types'[id]? = some d)
    (horigins : origins <+: origins') :
    Standard origins' types' name id := by
  cases hstandard with
  | primitive hbuiltin hget => exact .primitive hbuiltin (hdefinition _ hget)
  | derived hbuiltin hfacets hget hbase =>
      exact .derived hbuiltin hfacets (hdefinition _ hget)
        (getElem?_of_le horigins hbase)

/-- Every origin has its number. -/
theorem Tracked.eq_of_getElem? (htracked : b.Tracked D origins) {i j : TypeId}
    {origin : Origin} (hi : origins[i]? = some origin)
    (hj : origins[j]? = some origin) : i = j := by
  have hlt := (List.getElem?_eq_some_iff.mp hi).1
  exact (List.getElem?_inj hlt htracked.nodup).mp (hi.trans hj.symm)

theorem Tracked.isSome_builtin (htracked : b.Tracked D origins)
    {name : String} :
    (b.model.builtins.lookup name).isSome ↔ .builtin name ∈ origins := by
  rw [Option.isSome_iff_exists, List.mem_iff_getElem?]
  exact exists_congr fun id => htracked.builtin name id

/-- One more type behind the others. -/
theorem Tracked.append (htracked : b.Tracked D origins) {origin : Origin}
    {d : TypeDef} (hnew : origin ∉ origins)
    (htypes : b'.model.types = b.model.types ++ [d])
    (hfurnished : b'.model.Furnished)
    (hbuiltins : ∀ name id, b'.model.builtins.lookup name = some id ↔
      b.model.builtins.lookup name = some id ∨
        id = b.model.types.length ∧ origin = .builtin name)
    (hstandard : ∀ name, origin = .builtin name →
      Standard (origins ++ [origin]) b'.model.types name b.model.types.length)
    (helement : ∀ name id, b'.elementTypes.lookup name = some id →
      b.elementTypes.lookup name = some id ∨ id = b.model.types.length ∧
        ∃ decl, D.elements.lookup name = some decl ∧
          origin = D.elementOrigin name decl)
    (hregistered : ∀ name id, b.elementTypes.lookup name = some id ∨
      id = b.model.types.length ∧ origin = .owned (.element name) →
        b'.elementTypes.lookup name = some id)
    (hopened : ∀ name id, origin = .inline (.element name) id →
      .owned (.element name) ∈ origins) :
    b'.Tracked D (origins ++ [origin]) := by
  have hlength := htracked.length
  have hle : origins <+: origins ++ [origin] := List.prefix_append _ _
  constructor
  · simp [htypes, hlength]
  · rw [List.nodup_append]
    refine ⟨htracked.nodup, by simp, ?_⟩
    rintro other hother _ hlast rfl
    rw [List.mem_singleton] at hlast
    exact hnew (hlast ▸ hother)
  · exact hfurnished
  · exact fun name id hlookup =>
      getElem?_of_le hle (htracked.declared name id hlookup)
  · intro name id
    rw [hbuiltins, htracked.builtin, getElem?_concat_eq_some_iff, hlength]
  · intro name id hget
    rcases getElem?_concat_eq_some_iff.mp hget with hold | ⟨rfl, horigin⟩
    · refine standard_mono (htracked.standard name id hold)
        (fun d' hd' => ?_) hle
      rw [htypes]
      exact getElem?_of_le (List.prefix_append _ _) hd'
    · rw [hlength]
      exact hstandard name horigin
  · intro name id hlookup
    rcases helement name id hlookup with hold | ⟨rfl, decl, hdecl, rfl⟩
    · obtain ⟨decl, hdecl, hget⟩ := htracked.element name id hold
      exact ⟨decl, hdecl, getElem?_of_le hle hget⟩
    · exact ⟨decl, hdecl, by simp [← hlength]⟩
  · intro name id hget
    rcases getElem?_concat_eq_some_iff.mp hget with hold | ⟨rfl, horigin⟩
    · exact hregistered name id (.inl (htracked.registered name id hold))
    · exact hregistered name _ (.inr ⟨hlength, horigin⟩)
  · intro name id hmem
    apply List.mem_append_left
    rcases List.mem_append.mp hmem with hold | hlast
    · exact htracked.opened name id hold
    · exact hopened name id (List.mem_singleton.mp hlast).symm

/-- One more builtin type. -/
theorem Tracked.intern (htracked : b.Tracked D origins) {name : String}
    {type : TypeDef} (hnew : b.model.builtins.lookup name = none)
    (htype : b.model.Interns name type) :
    Tracked D (origins ++ [.builtin name])
        { b with model := b.model.intern name type } ∧
      Grows origins b (origins ++ [.builtin name])
        { b with model := b.model.intern name type } := by
  refine ⟨?_, List.prefix_append _ _, List.prefix_append _ _, fun _ => id⟩
  have hnot : Origin.builtin name ∉ origins := by
    rw [← htracked.isSome_builtin, hnew]
    nofun
  refine htracked.append hnot rfl (htracked.furnished.intern htype) ?_ ?_
    (fun _ _ => .inl) ?_ nofun
  · intro other id
    by_cases hname : other = name
    · subst hname
      rw [Model.lookup_intern_self, hnew]
      simp [eq_comm]
    · rw [Model.lookup_intern_of_ne hname]
      simp [Ne.symm hname]
  · rintro _ ⟨⟩
    have hself : (b.model.intern name type).types[b.model.types.length]? =
        some type := by simp [Model.intern]
    cases htype with
    | primitive hbuiltin => exact .primitive hbuiltin hself
    | derived hbuiltin hfacets hbase =>
        exact .derived hbuiltin hfacets hself (getElem?_of_le
          (List.prefix_append _ _) ((htracked.builtin _ _).mp hbase))
  · rintro other id (hlookup | ⟨-, ⟨⟩⟩)
    exact hlookup

/-- What is added is builtin types that belong to the one that is asked for. -/
structure Furnishes (D : Directory) (name : String) (origins : List Origin)
    (b : Builder) (origins' : List Origin) (b' : Builder) : Prop where
  tracked : b'.Tracked D origins'
  grows : Grows origins b origins' b'
  references : b'.model.references = b.model.references
  new : ∀ other ∈ origins', other ∈ origins ∨
    ∃ another, SimpleType.Needs name another ∧ other = .builtin another

theorem Furnishes.intern {name other : String} {type : TypeDef}
    (hfurnishes : Furnishes D name origins b origins' b')
    (hneeds : SimpleType.Needs name other)
    (hnew : b'.model.builtins.lookup other = none)
    (htype : b'.model.Interns other type) :
    Furnishes D name origins b (origins' ++ [.builtin other])
      { b' with model := b'.model.intern other type } := by
  obtain ⟨htracked, hgrows⟩ := hfurnishes.tracked.intern hnew htype
  refine ⟨htracked, hfurnishes.grows.trans hgrows, hfurnishes.references,
    fun origin horigin => ?_⟩
  rcases List.mem_append.mp horigin with hold | hlast
  · exact hfurnishes.new origin hold
  · exact .inr ⟨other, hneeds, List.mem_singleton.mp hlast⟩

/-- The builtin type with a name is found, if there is one. -/
theorem Tracked.findsBuiltin (htracked : b.Tracked D origins) (name : String) :
    Origin.Finds (.builtin name)
      (fun id b' => ∃ origins',
        Obtains D (.builtin name) origins b origins' id b')
      ((Conversion.builtin name).run b) := by
  rw [Conversion.run_builtin]
  cases hbuiltin : b.model.builtin? name with
  | none =>
      have hnone := htracked.furnished.builtin?_eq_none_iff.mp hbuiltin
      exact .unknown (by simp [Origin.Known, hnone]) _
  | some result =>
      obtain ⟨id, m⟩ := result
      have hstart : Furnishes D name origins b origins b :=
        ⟨htracked, .refl _ _, rfl, fun _ => .inl⟩
      obtain ⟨⟨origins', htracked', hgrows, hreferences, hnew⟩, hlookup⟩ :=
        Model.builtin?_induction
          (motive := fun m => ∃ origins', Furnishes D name origins b origins'
            { b with model := m })
          ⟨origins, hstart⟩
          (fun m other type hneeds hnone htype ⟨origins', hm⟩ =>
            ⟨_, hm.intern hneeds hnone htype⟩) hbuiltin
      exact .known (htracked'.furnished.known name
          (Option.isSome_of_eq_some hlookup))
        ⟨origins', htracked', hgrows, hreferences,
          (htracked'.builtin _ _).mp hlookup, hnew⟩

/-- A type that is there already is found without a change. -/
theorem Tracked.obtains_self (htracked : b.Tracked D origins) {id : TypeId}
    {origin : Origin} (hget : origins[id]? = some origin) :
    Obtains D origin origins b origins id b :=
  ⟨htracked, .refl _ _, rfl, hget, fun _ => .inl⟩

theorem Tracked.known (htracked : b.Tracked D origins) {id : TypeId}
    {origin : Origin} (hget : origins[id]? = some origin) : origin.Known := by
  cases origin with
  | builtin name =>
      have hlookup := (htracked.builtin name id).mpr hget
      exact htracked.furnished.known name (Option.isSome_of_eq_some hlookup)
  | owned => exact trivial
  | inline => exact trivial

/-- A type that is there has with it the builtin types that it asks for. -/
theorem Tracked.mem_of_asks (htracked : b.Tracked D origins) {id : TypeId}
    {origin : Origin} (hget : origins[id]? = some origin) {name : String}
    (hasks : origin.Asks name) : .builtin name ∈ origins := by
  cases origin with
  | builtin other =>
      have hlookup := (htracked.builtin other id).mpr hget
      exact htracked.isSome_builtin.mp (htracked.furnished.needs other name
        (Option.isSome_of_eq_some hlookup) hasks)
  | owned => exact hasks.elim
  | inline => exact hasks.elim

/-- The type that a name stands for is found. -/
theorem Tracked.findsType (htracked : b.Tracked D origins) (name : String) :
    Origin.Finds (D.typeOrigin name)
      (fun id b' => ∃ origins',
        Obtains D (D.typeOrigin name) origins b origins' id b')
      ((Conversion.type D name).run b) := by
  unfold Conversion.type Directory.typeOrigin
  cases hlookup : D.types.lookup name with
  | none => exact htracked.findsBuiltin name
  | some id =>
      exact .known trivial
        ⟨origins, htracked.obtains_self (htracked.declared name id hlookup)⟩

/-- The type of one more top-level element is known, which has a named type. -/
theorem Obtains.note {origin : Origin} {id : TypeId}
    (hobtains : Obtains D origin origins b origins' id b') {name : String}
    (hnew : b'.elementTypes.lookup name = none)
    {decl : ElementDeclaration} (hdecl : D.elements.lookup name = some decl)
    (horigin : origin = D.elementOrigin name decl) :
    Obtains D origin origins b origins' id
      { b' with elementTypes := (name, id) :: b'.elementTypes } := by
  obtain ⟨htracked, hgrows, hreferences, hcomes, hasked⟩ := hobtains
  refine ⟨?_, ⟨hgrows.types, hgrows.origins, hgrows.references⟩, hreferences,
    hcomes, hasked⟩
  refine ⟨htracked.length, htracked.nodup, htracked.furnished,
    htracked.declared, htracked.builtin, htracked.standard, ?_, ?_,
    htracked.opened⟩
  · intro other id' hlookup
    rcases lookup_cons_eq_some_iff.mp hlookup with ⟨rfl, rfl⟩ | ⟨-, hold⟩
    · exact ⟨decl, hdecl, horigin ▸ hcomes⟩
    · exact htracked.element other id' hold
  · exact fun other id' hget =>
      lookup_cons_of_lookup hnew (htracked.registered other id' hget)

/-- The type of a top-level element is found, if the element has been met before
or has a named type and nothing else. -/
theorem Tracked.findsElement (htracked : b.Tracked D origins)
    (references : References) (expanding : List String) {name : String}
    {decl : ElementDeclaration} (hdecl : D.elements.lookup name = some decl)
    (hempty : decl.head.type.isSome → decl.items = [])
    (hmet : (b.elementTypes.lookup name).isSome ∨ decl.head.type.isSome) :
    Origin.Finds (D.elementOrigin name decl)
      (fun id b' => ∃ origins',
        Obtains D (D.elementOrigin name decl) origins b origins' id b')
      ((topLevelType D references expanding name decl).run b) := by
  cases hlookup : b.elementTypes.lookup name with
  | some id =>
      rw [run_topLevelType_of_some _ _ _ hlookup]
      obtain ⟨decl', hdecl', hget⟩ := htracked.element name id hlookup
      cases hdecl.symm.trans hdecl'
      exact .known (htracked.known hget) ⟨origins, htracked.obtains_self hget⟩
  | none =>
      have hsome : decl.head.type.isSome := by simpa [hlookup] using hmet
      obtain ⟨type, htype⟩ := Option.isSome_iff_exists.mp hsome
      rw [run_topLevelType_of_none _ _ _ hlookup, htype]
      have horigin : D.elementOrigin name decl = D.typeOrigin type := by
        rw [Directory.elementOrigin, htype]
      rw [horigin, hempty hsome]
      refine finds_namedType (htracked.findsType type) ?_
      rintro id b' htypes ⟨origins', hobtains⟩
      rw [← htypes] at hlookup
      exact ⟨origins', hobtains.note hlookup hdecl horigin.symm⟩

/-- One more inline type of an owner. -/
theorem Tracked.add (htracked : b.Tracked D origins) {owner : Owner}
    {number : TypeId} (hnew : .inline owner number ∉ origins)
    (hopened : ∀ name, owner = .element name → .owned owner ∈ origins)
    (d : TypeDef) :
    Tracked D (origins ++ [.inline owner number])
        { b with model := { b.model with types := b.model.types ++ [d] } } ∧
      Grows origins b (origins ++ [.inline owner number])
        { b with model := { b.model with types := b.model.types ++ [d] } } := by
  refine ⟨?_, List.prefix_append _ _, List.prefix_append _ _, fun _ => id⟩
  refine htracked.append hnew rfl
    ⟨htracked.furnished.known, htracked.furnished.needs⟩ (by simp) nofun
    (fun _ _ => .inl) ?_ ?_
  · rintro name id (hlookup | ⟨-, ⟨⟩⟩)
    exact hlookup
  · rintro name id ⟨⟩
    exact hopened name rfl

theorem Tracked.not_mem_owned (htracked : b.Tracked D origins) {name : String}
    (hnew : b.elementTypes.lookup name = none) :
    .owned (.element name) ∉ origins := by
  intro hmem
  obtain ⟨id, hget⟩ := List.mem_iff_getElem?.mp hmem
  rw [htracked.registered name id hget] at hnew
  cases hnew

/-- A top-level element without a named type gets its number. -/
theorem Tracked.reserve (htracked : b.Tracked D origins) {name : String}
    (hnew : b.elementTypes.lookup name = none) {decl : ElementDeclaration}
    (hdecl : D.elements.lookup name = some decl)
    (htype : decl.head.type = none) :
    (b.reserve name).Tracked D (origins ++ [.owned (.element name)]) ∧
      Grows origins b (origins ++ [.owned (.element name)])
        (b.reserve name) := by
  refine ⟨?_, List.prefix_append _ _, List.prefix_append _ _, fun _ => id⟩
  refine htracked.append (htracked.not_mem_owned hnew) rfl
    ⟨htracked.furnished.known, htracked.furnished.needs⟩
    (by simp [Builder.reserve]) nofun ?_ ?_ nofun
  · intro other id hlookup
    rcases lookup_cons_eq_some_iff.mp hlookup with ⟨rfl, rfl⟩ | ⟨-, hold⟩
    · exact .inr ⟨rfl, decl, hdecl, by rw [Directory.elementOrigin, htype]⟩
    · exact .inl hold
  · rintro other id (hlookup | ⟨rfl, ⟨⟩⟩)
    · exact lookup_cons_of_lookup hnew hlookup
    · exact List.lookup_cons_self

/-- Origins are those of the types, whatever else the model has. -/
theorem Tracked.congr (htracked : b.Tracked D origins)
    (htypes : b'.model.types = b.model.types)
    (hbuiltins : b'.model.builtins = b.model.builtins)
    (helementTypes : b'.elementTypes = b.elementTypes) :
    b'.Tracked D origins := by
  refine ⟨?_, htracked.nodup, ⟨?_, ?_⟩, htracked.declared, ?_, ?_, ?_, ?_,
    htracked.opened⟩
  · rw [htypes]
    exact htracked.length
  · rw [hbuiltins]
    exact htracked.furnished.known
  · rw [hbuiltins]
    exact htracked.furnished.needs
  · rw [hbuiltins]
    exact htracked.builtin
  · rw [htypes]
    exact htracked.standard
  · rw [helementTypes]
    exact htracked.element
  · rw [helementTypes]
    exact htracked.registered

/-- A top-level element is referred to. -/
theorem Tracked.refer (htracked : b.Tracked D origins) (name : String) :
    Tracked D origins { b with model := b.model.addReference name } ∧
      Grows origins b origins
        { b with model := b.model.addReference name } := by
  have htypes : (b.model.addReference name).types = b.model.types := by
    rw [addReference_eq]
  have hbuiltins : (b.model.addReference name).builtins = b.model.builtins := by
    rw [addReference_eq]
  exact ⟨htracked.congr htypes hbuiltins rfl, htypes ▸ List.prefix_rfl,
    List.prefix_rfl, fun other hother => mem_addReference.mpr (.inr hother)⟩

/-- An owner gets its definition. -/
theorem Tracked.define (htracked : b.Tracked D origins) {id : TypeId}
    {owner : Owner} (hget : origins[id]? = some (.owned owner)) (d : TypeDef) :
    Tracked D origins { b with model := b.model.define id d } := by
  refine ⟨by simp [Model.define, htracked.length], htracked.nodup,
    ⟨htracked.furnished.known, htracked.furnished.needs⟩, htracked.declared,
    htracked.builtin, ?_, htracked.element, htracked.registered,
    htracked.opened⟩
  intro name id' hbuiltin
  refine standard_mono (htracked.standard name id' hbuiltin)
    (fun d' hd' => ?_) List.prefix_rfl
  have hne : id ≠ id' := by
    rintro rfl
    rw [hget] at hbuiltin
    cases hbuiltin
  rwa [Model.define, List.getElem?_set_ne hne]

end Builder

end Declaration

end Specimen
