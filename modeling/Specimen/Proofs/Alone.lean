/-
An owner that is converted alone: all declared types and all top-level elements
without named types have their numbers before, so that references to them are
not followed.  What the owner adds are builtin types and its own inline types.
-/
import Mathlib.Order.Nat
import Specimen.Proofs.Origins

namespace Specimen

namespace Declaration

namespace Directory

variable (D : Directory)

/-- The top-level elements that have no named type. -/
def untyped : List String :=
  D.elements.filterMap fun (name, decl) =>
    if decl.head.type.isNone then some name else none

/-- The types that have their numbers before anything is converted alone. -/
def standing : List Origin :=
  D.types.reverse.map (fun (name, _) => .owned (.type name)) ++
    D.untyped.map (fun name => .owned (.element name))

/-- The builder that every owner starts from if it is converted alone. -/
def waiting : Builder where
  model := { types := List.replicate D.standing.length (.builtin .anyType) }
  elementTypes := D.untyped.zipIdx D.types.length

/-- Where a type comes from if an owner is converted alone. -/
def originIn (owner : Owner) (m : Model) (id : TypeId) : Origin :=
  match D.standing[id]? with
  | some origin => origin
  | none =>
    match m.builtins.find? (·.2 == id) with
    | some (name, _) => .builtin name
    | none => .inline owner id

/-- What an owner gives if it is converted alone. -/
def alone (content : Content) : Except DeclarationError (TypeDef × Builder) :=
  (content.convert D (References.within D D.depth) []).run D.waiting

end Directory

/-- The builder in which an owner is converted alone. -/
structure Builder.Alone (D : Directory) (owner : Owner) (b : Builder) :
    Prop where
  standing_le : D.standing.length ≤ b.model.types.length
  furnished : b.model.Furnished
  lookup : ∀ p ∈ b.model.builtins, b.model.builtins.lookup p.1 = some p.2
  standing_le_builtin : ∀ p ∈ b.model.builtins, D.standing.length ≤ p.2
  builtin_lt : ∀ p ∈ b.model.builtins, p.2 < b.model.types.length
  injective : ∀ p ∈ b.model.builtins, ∀ q ∈ b.model.builtins, p.2 = q.2 → p = q
  element : ∀ name id, b.elementTypes.lookup name = some id →
    ∃ decl, D.elements.lookup name = some decl ∧ id < b.model.types.length ∧
      D.originIn owner b.model id = D.elementOrigin name decl
  untyped : ∀ name decl, D.elements.lookup name = some decl →
    decl.head.type = none → (b.elementTypes.lookup name).isSome

/-- What an owner that is converted alone adds behind what there is. -/
structure Builder.Onward (D : Directory) (owner : Owner) (b b' : Builder) :
    Prop where
  types : b.model.types <+: b'.model.types
  origins : ∀ id < b.model.types.length,
    D.originIn owner b'.model id = D.originIn owner b.model id
  references : ∀ name ∈ b.model.references, name ∈ b'.model.references

/-- A type is found while an owner is converted alone. -/
structure Builder.Gains (D : Directory) (owner : Owner) (origin : Origin)
    (b : Builder) (id : TypeId) (b' : Builder) : Prop where
  alone : b'.Alone D owner
  onward : b.Onward D owner b'
  references : b'.model.references = b.model.references
  lt : id < b'.model.types.length
  comes : D.originIn owner b'.model id = origin
  asked : ∀ other, origin.Asks other →
    (b'.model.builtins.lookup other).isSome
  new : ∀ other, (b'.model.builtins.lookup other).isSome →
    (b.model.builtins.lookup other).isSome ∨ origin.Asks other
  newTypes : ∀ id' < b'.model.types.length, id' < b.model.types.length ∨
    ∃ other, origin.Asks other ∧
      D.originIn owner b'.model id' = .builtin other

namespace Builder

variable {D : Directory} {owner : Owner} {b b' b'' : Builder}

theorem Onward.refl (b : Builder) : b.Onward D owner b :=
  ⟨List.prefix_rfl, fun _ _ => rfl, fun _ => id⟩

theorem Onward.trans (hfirst : b.Onward D owner b')
    (hsecond : b'.Onward D owner b'') : b.Onward D owner b'' where
  types := hfirst.types.trans hsecond.types
  origins id hid := (hsecond.origins id
    (hid.trans_le hfirst.types.length_le)).trans (hfirst.origins id hid)
  references name hname :=
    hsecond.references name (hfirst.references name hname)

theorem originIn_of_standing {m : Model} {id : TypeId} {origin : Origin}
    (hstanding : D.standing[id]? = some origin) :
    D.originIn owner m id = origin := by
  rw [Directory.originIn, hstanding]

/-- Where a type comes from depends on the builtin types alone. -/
theorem originIn_congr {m m' : Model} (hbuiltins : m'.builtins = m.builtins)
    (id : TypeId) : D.originIn owner m' id = D.originIn owner m id := by
  rw [Directory.originIn, Directory.originIn, hbuiltins]

theorem Alone.originIn_builtin (halone : b.Alone D owner) {name : String}
    {id : TypeId} (hlookup : b.model.builtins.lookup name = some id) :
    D.originIn owner b.model id = .builtin name := by
  have hmem := mem_of_lookup hlookup
  have hstanding : D.standing[id]? = none :=
    List.getElem?_eq_none (halone.standing_le_builtin _ hmem)
  rw [Directory.originIn, hstanding]
  cases hfind : b.model.builtins.find? (·.2 == id) with
  | none =>
      have hnot := List.find?_eq_none.mp hfind _ hmem
      exact absurd (beq_self_eq_true id) hnot
  | some p =>
      have hp := List.find?_some hfind
      rw [beq_iff_eq] at hp
      cases halone.injective p (List.mem_of_find?_eq_some hfind) _ hmem hp
      rfl

/-- The types that stand are owned ones. -/
theorem owned_of_mem_standing {origin : Origin} (hmem : origin ∈ D.standing) :
    ∃ owner', origin = .owned owner' := by
  rw [Directory.standing, List.mem_append, List.mem_map, List.mem_map] at hmem
  rcases hmem with ⟨p, -, rfl⟩ | ⟨name, -, rfl⟩
  · exact ⟨_, rfl⟩
  · exact ⟨_, rfl⟩

theorem originIn_eq_inline {m : Model} {id number : TypeId} {owner' : Owner}
    (horigin : D.originIn owner m id = .inline owner' number) :
    owner' = owner ∧ number = id := by
  unfold Directory.originIn at horigin
  split at horigin
  · rename_i origin hstanding
    obtain ⟨other, rfl⟩ := owned_of_mem_standing
      (List.mem_of_getElem? hstanding)
    cases horigin
  · split at horigin <;> cases horigin
    exact ⟨rfl, rfl⟩

/-- A type stands, or is a builtin one, or an inline type of the owner. -/
inductive Arises (D : Directory) (owner : Owner) (b : Builder) (id : TypeId) :
    Origin → Prop where
  | owned (owner' : Owner)
    (hstanding : D.standing[id]? = some (.owned owner')) :
    Arises D owner b id (.owned owner')
  | builtin (name : String)
    (hlookup : b.model.builtins.lookup name = some id) :
    Arises D owner b id (.builtin name)
  | inline (hstanding : D.standing.length ≤ id) :
    Arises D owner b id (.inline owner id)

theorem Alone.arises (halone : b.Alone D owner) (id : TypeId) :
    Arises D owner b id (D.originIn owner b.model id) := by
  cases hstanding : D.standing[id]? with
  | some origin =>
      rw [originIn_of_standing hstanding]
      obtain ⟨owner', rfl⟩ := owned_of_mem_standing
        (List.mem_of_getElem? hstanding)
      exact .owned owner' hstanding
  | none =>
      rw [Directory.originIn, hstanding]
      cases hfind : b.model.builtins.find? (·.2 == id) with
      | none => exact .inline (List.getElem?_eq_none_iff.mp hstanding)
      | some p =>
          obtain ⟨name, id'⟩ := p
          have hp := List.find?_some hfind
          rw [beq_iff_eq] at hp
          subst hp
          exact .builtin name
            (halone.lookup _ (List.mem_of_find?_eq_some hfind))

/-- The next number is none of the builtin types'. -/
theorem Alone.originIn_length (halone : b.Alone D owner) :
    D.originIn owner b.model b.model.types.length =
      .inline owner b.model.types.length := by
  have hstanding : D.standing[b.model.types.length]? = none :=
    List.getElem?_eq_none halone.standing_le
  have hfind : b.model.builtins.find? (·.2 == b.model.types.length) = none := by
    rw [List.find?_eq_none]
    intro p hp
    have hlt := halone.builtin_lt p hp
    simpa using hlt.ne
  rw [Directory.originIn, hstanding, hfind]

theorem originIn_intern_of_lt {m : Model} {name : String} {type : TypeDef}
    {id : TypeId} (hlt : id < m.types.length) :
    D.originIn owner (m.intern name type) id = D.originIn owner m id := by
  rw [Directory.originIn, Directory.originIn]
  have hne : (m.types.length == id) = false := by simpa using hlt.ne'
  simp only [Model.intern, List.find?_cons, hne]

/-- One more builtin type. -/
theorem Alone.intern (halone : b.Alone D owner) {name : String}
    {type : TypeDef} (hnew : b.model.builtins.lookup name = none)
    (htype : b.model.Interns name type) :
    Alone D owner { b with model := b.model.intern name type } ∧
      b.Onward D owner { b with model := b.model.intern name type } := by
  have honward : b.Onward D owner
      { b with model := b.model.intern name type } :=
    ⟨List.prefix_append _ _, fun _ => originIn_intern_of_lt, fun _ => id⟩
  have hlength : (b.model.intern name type).types.length =
      b.model.types.length + 1 := by simp [Model.intern]
  have hold : ∀ p ∈ b.model.builtins, p.1 ≠ name := by
    rintro p hp rfl
    rw [halone.lookup p hp] at hnew
    cases hnew
  refine ⟨?_, honward⟩
  constructor
  · rw [hlength]
    exact halone.standing_le.trans (Nat.le_succ _)
  · exact halone.furnished.intern htype
  · intro p hp
    rcases List.mem_cons.mp hp with rfl | hp
    · exact Model.lookup_intern_self _ _ _
    · rw [Model.lookup_intern_of_ne (hold p hp)]
      exact halone.lookup p hp
  · intro p hp
    rcases List.mem_cons.mp hp with rfl | hp
    · exact halone.standing_le
    · exact halone.standing_le_builtin p hp
  · intro p hp
    rw [hlength]
    rcases List.mem_cons.mp hp with rfl | hp
    · exact Nat.lt_succ_self _
    · exact (halone.builtin_lt p hp).trans (Nat.lt_succ_self _)
  · intro p hp q hq hsame
    rcases List.mem_cons.mp hp with rfl | hp <;>
      rcases List.mem_cons.mp hq with rfl | hq
    · rfl
    · exact absurd hsame (halone.builtin_lt q hq).ne'
    · exact absurd hsame (halone.builtin_lt p hp).ne
    · exact halone.injective p hp q hq hsame
  · intro other id hlookup
    obtain ⟨decl, hdecl, hlt, horigin⟩ := halone.element other id hlookup
    refine ⟨decl, hdecl, ?_, (originIn_intern_of_lt hlt).trans horigin⟩
    rw [hlength]
    exact hlt.trans (Nat.lt_succ_self _)
  · exact halone.untyped

/-- What is gained is builtin types that belong to the one that is asked for. -/
structure Supplied (D : Directory) (owner : Owner) (name : String)
    (b b' : Builder) : Prop where
  alone : b'.Alone D owner
  onward : b.Onward D owner b'
  references : b'.model.references = b.model.references
  new : ∀ other, (b'.model.builtins.lookup other).isSome →
    (b.model.builtins.lookup other).isSome ∨ SimpleType.Needs name other
  newTypes : ∀ id < b'.model.types.length, id < b.model.types.length ∨
    ∃ other, SimpleType.Needs name other ∧
      D.originIn owner b'.model id = .builtin other

theorem Supplied.intern {name other : String} {type : TypeDef}
    (hsupplied : Supplied D owner name b b')
    (hneeds : SimpleType.Needs name other)
    (hnew : b'.model.builtins.lookup other = none)
    (htype : b'.model.Interns other type) :
    Supplied D owner name b { b' with
      model := b'.model.intern other type } := by
  obtain ⟨halone, honward⟩ := hsupplied.alone.intern hnew htype
  refine ⟨halone, hsupplied.onward.trans honward, hsupplied.references,
    fun another hanother => ?_, fun id hid => ?_⟩
  · by_cases hname : another = other
    · subst hname
      exact .inr hneeds
    · rw [Model.lookup_intern_of_ne hname] at hanother
      exact hsupplied.new another hanother
  · rcases Nat.lt_or_ge id b'.model.types.length with hlt | hge
    · rw [originIn_intern_of_lt hlt]
      exact hsupplied.newTypes id hlt
    · have hlast : id = b'.model.types.length := by
        have hlength : (b'.model.intern other type).types.length =
            b'.model.types.length + 1 := by simp [Model.intern]
        rw [hlength] at hid
        omega
      subst hlast
      exact .inr ⟨other, hneeds,
        halone.originIn_builtin (Model.lookup_intern_self _ _ _)⟩

/-- The builtin type with a name is found, if there is one. -/
theorem Alone.builtin (halone : b.Alone D owner) (name : String) :
    Origin.Finds (.builtin name) (b.Gains D owner (.builtin name))
      ((Conversion.builtin name).run b) := by
  rw [Conversion.run_builtin]
  cases hbuiltin : b.model.builtin? name with
  | none =>
      have hnone := halone.furnished.builtin?_eq_none_iff.mp hbuiltin
      exact .unknown (by simp [Origin.Known, hnone]) _
  | some result =>
      obtain ⟨id, m⟩ := result
      have hstart : Supplied D owner name b b :=
        ⟨halone, .refl b, rfl, fun _ => .inl, fun _ => .inl⟩
      obtain ⟨⟨halone', honward, hreferences, hnew, hnewTypes⟩, hlookup⟩ :=
        Model.builtin?_induction
          (motive := fun m => Supplied D owner name b { b with model := m })
          hstart
          (fun m other type hneeds hnone htype hm =>
            hm.intern hneeds hnone htype) hbuiltin
      have hsome := Option.isSome_of_eq_some hlookup
      exact .known (halone'.furnished.known name hsome)
        ⟨halone', honward, hreferences,
          halone'.builtin_lt _ (mem_of_lookup hlookup),
          halone'.originIn_builtin hlookup,
          fun other => halone'.furnished.needs name other hsome, hnew,
          hnewTypes⟩

/-- A type that is there already is found without a change. -/
theorem Alone.gains_self (halone : b.Alone D owner) {id : TypeId}
    {origin : Origin} (hlt : id < b.model.types.length)
    (horigin : D.originIn owner b.model id = origin) :
    b.Gains D owner origin id b where
  alone := halone
  onward := .refl b
  references := rfl
  lt := hlt
  comes := horigin
  asked other hasks := by
    cases horigin' : origin with
    | builtin name =>
        rw [horigin'] at hasks
        have harises := halone.arises id
        rw [horigin, horigin'] at harises
        cases harises with
        | builtin _ hlookup =>
            exact halone.furnished.needs name other
              (Option.isSome_of_eq_some hlookup) hasks
    | owned => rw [horigin'] at hasks; exact hasks.elim
    | inline => rw [horigin'] at hasks; exact hasks.elim
  new _ := .inl
  newTypes _ := .inl

theorem Alone.known (halone : b.Alone D owner) (id : TypeId) :
    (D.originIn owner b.model id).Known := by
  have harises := halone.arises id
  generalize D.originIn owner b.model id = origin at harises
  cases harises with
  | owned => exact trivial
  | builtin name hlookup =>
      exact halone.furnished.known name (Option.isSome_of_eq_some hlookup)
  | inline => exact trivial

/-- The type that a name stands for is found. -/
theorem Alone.type (halone : b.Alone D owner)
    (hstanding : ∀ name id, D.types.lookup name = some id →
      D.standing[id]? = some (.owned (.type name))) (name : String) :
    Origin.Finds (D.typeOrigin name) (b.Gains D owner (D.typeOrigin name))
      ((Conversion.type D name).run b) := by
  unfold Conversion.type Directory.typeOrigin
  cases hlookup : D.types.lookup name with
  | none => exact halone.builtin name
  | some id =>
      have hget := hstanding name id hlookup
      have hlt := (List.getElem?_eq_some_iff.mp hget).1
      exact .known trivial (halone.gains_self
        (hlt.trans_le halone.standing_le) (originIn_of_standing hget))

/-- The type of one more top-level element is known. -/
theorem Gains.note {origin : Origin} {id : TypeId}
    (hgains : b.Gains D owner origin id b') {name : String}
    {decl : ElementDeclaration} (hdecl : D.elements.lookup name = some decl)
    (horigin : origin = D.elementOrigin name decl) :
    b.Gains D owner origin id
      { b' with elementTypes := (name, id) :: b'.elementTypes } := by
  obtain ⟨halone, honward, hreferences, hlt, hcomes, hasked, hnew, hnewTypes⟩ :=
    hgains
  refine ⟨?_, ⟨honward.types, honward.origins, honward.references⟩, hreferences,
    hlt, hcomes, hasked, hnew, hnewTypes⟩
  refine ⟨halone.standing_le, halone.furnished, halone.lookup,
    halone.standing_le_builtin, halone.builtin_lt, halone.injective, ?_, ?_⟩
  · intro other id' hlookup
    rcases lookup_cons_eq_some_iff.mp hlookup with ⟨rfl, rfl⟩ | ⟨-, hold⟩
    · exact ⟨decl, hdecl, hlt, hcomes.trans horigin⟩
    · exact halone.element other id' hold
  · intro other decl' hdecl' htype
    rw [List.lookup_cons]
    split
    · rfl
    · exact halone.untyped other decl' hdecl' htype

/-- The type of a top-level element is found: an element without a named type
has its number before, and one with a named type is not followed further. -/
theorem Alone.topLevelType (halone : b.Alone D owner)
    (hstanding : ∀ name id, D.types.lookup name = some id →
      D.standing[id]? = some (.owned (.type name)))
    (references : References) (expanding : List String) {name : String}
    {decl : ElementDeclaration} (hdecl : D.elements.lookup name = some decl)
    (hempty : decl.head.type.isSome → decl.items = []) :
    Origin.Finds (D.elementOrigin name decl)
      (b.Gains D owner (D.elementOrigin name decl))
      ((topLevelType D references expanding name decl).run b) := by
  cases hlookup : b.elementTypes.lookup name with
  | some id =>
      rw [run_topLevelType_of_some _ _ _ hlookup]
      obtain ⟨decl', hdecl', hlt, horigin⟩ := halone.element name id hlookup
      cases hdecl.symm.trans hdecl'
      have hknown := halone.known id
      rw [horigin] at hknown
      exact .known hknown (halone.gains_self hlt horigin)
  | none =>
      cases htype : decl.head.type with
      | none =>
          have hsome := halone.untyped name decl hdecl htype
          rw [hlookup] at hsome
          cases hsome
      | some type =>
          rw [run_topLevelType_of_none _ _ _ hlookup, htype]
          have hitems : decl.items = [] := hempty (by rw [htype]; rfl)
          have horigin : D.elementOrigin name decl = D.typeOrigin type := by
            rw [Directory.elementOrigin, htype]
          rw [horigin, hitems]
          exact finds_namedType (halone.type hstanding type)
            fun id b' _ hgains =>
            hgains.note hdecl horigin.symm

/-- An inline type of the owner gets its number. -/
theorem Alone.add (halone : b.Alone D owner) (d : TypeDef) :
    Alone D owner
        { b with model := { b.model with types := b.model.types ++ [d] } } ∧
      b.Onward D owner
        { b with model := { b.model with types := b.model.types ++ [d] } } := by
  have hgrows {id : TypeId} (hid : id < b.model.types.length) :
      id < (b.model.types ++ [d]).length := by
    rw [List.length_append]
    exact Nat.lt_add_right _ hid
  refine ⟨?_, List.prefix_append _ _, fun _ _ => originIn_congr rfl _,
    fun _ => id⟩
  refine ⟨?_, ⟨halone.furnished.known, halone.furnished.needs⟩, halone.lookup,
    halone.standing_le_builtin, fun p hp => hgrows (halone.builtin_lt p hp),
    halone.injective, ?_, halone.untyped⟩
  · exact halone.standing_le.trans (by simp)
  · intro name id hlookup
    obtain ⟨decl, hdecl, hlt, horigin⟩ := halone.element name id hlookup
    exact ⟨decl, hdecl, hgrows hlt, (originIn_congr rfl id).trans horigin⟩

/-- A top-level element is referred to. -/
theorem Alone.refer (halone : b.Alone D owner) (name : String) :
    Alone D owner { b with model := b.model.addReference name } ∧
      b.Onward D owner { b with model := b.model.addReference name } := by
  rw [addReference_eq]
  refine ⟨⟨halone.standing_le,
    ⟨halone.furnished.known, halone.furnished.needs⟩, halone.lookup,
    halone.standing_le_builtin, halone.builtin_lt, halone.injective,
    halone.element, halone.untyped⟩, List.prefix_rfl,
    fun _ _ => originIn_congr rfl _, fun other hother => ?_⟩
  exact mem_addReference.mpr (.inr hother)

theorem mem_untyped {name : String} :
    name ∈ D.untyped ↔
      ∃ decl, (name, decl) ∈ D.elements ∧ decl.head.type = none := by
  simp only [Directory.untyped, List.mem_filterMap]
  constructor
  · rintro ⟨⟨other, decl⟩, hmem, hother⟩
    split at hother
    · rename_i htype
      cases hother
      exact ⟨decl, hmem, Option.isNone_iff_eq_none.mp htype⟩
    · cases hother
  · rintro ⟨decl, hmem, htype⟩
    exact ⟨(name, decl), hmem, by simp [htype]⟩

theorem getElem?_standing_element {name : String} {id : TypeId}
    (hmem : (name, id) ∈ D.untyped.zipIdx D.types.length) :
    D.standing[id]? = some (.owned (.element name)) := by
  rw [List.mk_mem_zipIdx_iff_le_and_getElem?_sub] at hmem
  obtain ⟨hle, hget⟩ := hmem
  rw [Directory.standing, List.getElem?_append_right (by simpa using hle)]
  simp [hget]

/-- An owner may be converted alone from the start. -/
theorem alone_waiting (hnodup : (D.elements.map (·.1)).Nodup) :
    D.waiting.Alone D owner := by
  have hlength : D.waiting.model.types.length = D.standing.length :=
    List.length_replicate
  refine ⟨hlength.ge, ⟨nofun, nofun⟩, nofun, nofun, nofun, nofun, ?_, ?_⟩
  · intro name id hlookup
    have hmem := mem_of_lookup hlookup
    have hget := getElem?_standing_element hmem
    obtain ⟨decl, hdecl, htype⟩ := mem_untyped.mp
      (List.mem_of_getElem? (List.mk_mem_zipIdx_iff_le_and_getElem?_sub.mp
        hmem).2)
    refine ⟨decl, lookup_of_mem hnodup hdecl, ?_, ?_⟩
    · rw [hlength]
      exact (List.getElem?_eq_some_iff.mp hget).1
    · rw [originIn_of_standing hget, Directory.elementOrigin, htype]
  · intro name decl hdecl htype
    have hmem : name ∈ D.untyped :=
      mem_untyped.mpr ⟨decl, mem_of_lookup hdecl, htype⟩
    rw [lookup_isSome_iff_mem]
    change name ∈ (D.untyped.zipIdx D.types.length).map (·.1)
    rwa [List.zipIdx_map_fst]

end Builder

end Declaration

end Specimen
