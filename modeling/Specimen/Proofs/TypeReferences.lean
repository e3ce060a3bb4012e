/-
What names stand for in a finished model.  A type is found by the local part of
its name: if the schema declares types of that name it is the last of them, and
otherwise the builtin type with the name.
-/
import Mathlib.Data.List.Forall2
import Specimen.Proofs.Collecting
import Specimen.Proofs.Interpretation
import Specimen.Sampling

namespace Specimen

namespace Declaration

section Named

variable {directory : Directory} {ι : Type}
  {convert : ι → Conversion TypeDef} (defines : Meaning → ι → TypeDef → Prop)

/-- Named types get the definitions that they are declared to have, one by one.
-/
theorem sound_forM_define
    (hmono : ∀ M N, M.Le N → ∀ i d, defines M i d → defines N i d)
    (hconvert : ∀ pending b i, Gives directory pending b
      (fun b' d => defines (b'.meaning directory pending) i d) (convert i))
    (types : List (TypeId × ι)) (rest : List TypeId)
    (hnodup : (types.map (·.1) ++ rest).Nodup) {b b' : Builder}
    (hsound : b.Sound directory ⟨types.map (·.1) ++ rest, []⟩)
    (hrun : (types.forM fun t => do
      Conversion.define t.1 (← convert t.2)).run b = .ok ((), b')) :
    b'.Sound directory ⟨rest, []⟩ ∧
      (b.meaning directory ⟨types.map (·.1) ++ rest, []⟩).Le
        (b'.meaning directory ⟨rest, []⟩) ∧
      b'.model.elements = b.model.elements ∧
      ∀ t ∈ types, ∃ d, (b'.meaning directory ⟨rest, []⟩).definition t.1 d ∧
        defines (b'.meaning directory ⟨rest, []⟩) t.2 d := by
  induction types generalizing b with
  | nil =>
      cases hrun
      exact ⟨hsound, .refl _, rfl, nofun⟩
  | cons t types ih =>
      obtain ⟨id, i⟩ := t
      obtain ⟨_, b₂, hfirst, hrun⟩ := Conversion.run_bind_eq_ok_iff.mp hrun
      obtain ⟨d, b₁, hd, hfirst⟩ := Conversion.run_bind_eq_ok_iff.mp hfirst
      cases hfirst
      obtain ⟨hextends, hsound₁, hdefines⟩ := hconvert _ b i hsound d b₁ hd
      obtain ⟨hnew, hnodup⟩ := List.nodup_cons.mp hnodup
      have hfewer (id' : TypeId)
          (hhas : Pending.Has ⟨types.map (·.1) ++ rest, []⟩ id') :
          Pending.Has ⟨id :: (types.map (·.1) ++ rest), []⟩ id' :=
        hhas.imp (List.mem_cons_of_mem id) fun ⟨_, hin⟩ => ⟨_, hin⟩
      have hle : (b₁.meaning directory
          ⟨id :: (types.map (·.1) ++ rest), []⟩).Le
            (Builder.meaning { b₁ with model := b₁.model.define id d } directory
              ⟨types.map (·.1) ++ rest, []⟩) :=
        b₁.meaning_le_define _ d (.inl List.mem_cons_self) hfewer
      have hsound₂ : Builder.Sound directory ⟨types.map (·.1) ++ rest, []⟩
          { b₁ with model := b₁.model.define id d } := by
        refine hsound₁.of_le hle (fun id' hhas => ?_) (fun _ _ => .inl)
          fun _ _ hlookup => .inl ⟨hlookup, nofun⟩
        rw [Model.define, List.length_set]
        exact hsound₁.pending_lt id' (hfewer id' hhas)
      obtain ⟨hsound', hle', helements, hall⟩ := ih hnodup hsound₂ hrun
      refine ⟨hsound', (hextends.meaning_le.trans hle).trans hle',
        helements.trans hextends.elements, fun t ht => ?_⟩
      rcases List.mem_cons.mp ht with rfl | ht
      · have hlt : id < b₁.model.types.length :=
          hsound₁.pending_lt id (.inl List.mem_cons_self)
        have hnot : ¬ Pending.Has ⟨types.map (·.1) ++ rest, []⟩ id := by
          rintro (hin | ⟨_, hin⟩)
          · exact hnew hin
          · cases hin
        refine ⟨d, hle'.definition _ _ ⟨?_, hnot⟩,
          hmono _ _ (hle.trans hle') _ _ hdefines⟩
        simp [Model.define, hlt]
      · exact hall t ht

end Named

section Elements

variable {directory : Directory} {references : References}

/-- Whoever has no type yet is declared here first. -/
theorem lookup_append_of_none
    {done entries : List (String × ElementDeclaration)}
    {types : List (String × TypeId)} {name : String} {decl : ElementDeclaration}
    (hdone : ∀ entry ∈ done, (types.lookup entry.1).isSome)
    (hnone : types.lookup name = none) :
    (done ++ (name, decl) :: entries).lookup name = some decl := by
  have hnew : done.lookup name = none := by
    rw [List.lookup_eq_none_iff]
    intro entry hentry
    rw [bne_iff_ne]
    rintro rfl
    simpa [hnone] using hdone entry hentry
  rw [List.lookup_append, hnew, List.lookup_cons_self, Option.none_or]

theorem Builder.Extends.isSome {b b' : Builder} (hextends : b.Extends b')
    {name : String} (hsome : (b.elementTypes.lookup name).isSome) :
    (b'.elementTypes.lookup name).isSome := by
  obtain ⟨id, hid⟩ := Option.isSome_iff_exists.mp hsome
  exact Option.isSome_of_eq_some (hextends.elementTypes name id hid)

/-- A top-level element of the model is the one that is declared. -/
def Stands (b : Builder) (entry : String × ElementDeclaration)
    (element : ElementDecl) : Prop :=
  element.name = entry.1 ∧ element.occurs = {} ∧
    b.elementTypes.lookup entry.1 = some element.type

/-- The top-level elements are added in the order in which they are declared. -/
theorem sound_addElements
    (hreferences : ∀ pending, Interprets directory pending references [])
    {done entries : List (String × ElementDeclaration)}
    (hdirectory : directory.elements = done ++ entries) {b b' : Builder}
    (hdone : ∀ entry ∈ done, (b.elementTypes.lookup entry.1).isSome)
    (hsound : b.Sound directory {})
    (hrun : (entries.forM (addElement directory references [])).run b =
      .ok ((), b')) :
    b'.Sound directory {} ∧
      (b.meaning directory {}).Le (b'.meaning directory {}) ∧
      ∃ added, b'.model.elements = b.model.elements ++ added ∧
        List.Forall₂ (Stands b') entries added := by
  induction entries generalizing done b with
  | nil =>
      cases hrun
      exact ⟨hsound, .refl _, [], by simp, .nil⟩
  | cons entry entries ih =>
      obtain ⟨name, decl⟩ := entry
      obtain ⟨_, b₃, hfirst, hrun⟩ := Conversion.run_bind_eq_ok_iff.mp hrun
      obtain ⟨_, b₁, hhead, hfirst⟩ := Conversion.run_bind_eq_ok_iff.mp hfirst
      obtain ⟨id, b₂, htype, hfirst⟩ := Conversion.run_bind_eq_ok_iff.mp hfirst
      cases hfirst
      obtain ⟨hextends₁, hsound₁, -⟩ := Gives.of_except hsound _ b₁ hhead
      have hdone₁ : ∀ entry ∈ done, (b₁.elementTypes.lookup entry.1).isSome :=
        fun entry hentry => hextends₁.isSome (hdone entry hentry)
      have hdecl (hnone : b₁.elementTypes.lookup name = none) :
          directory.elements.lookup name = some decl := by
        rw [hdirectory]
        exact lookup_append_of_none hdone₁ hnone
      obtain ⟨hextends₂, hsound₂, hid⟩ :=
        gives_topLevelType hreferences hdecl hsound₁ id b₂ htype
      have hdone₂ : ∀ entry ∈ done ++ [(name, decl)],
          (b₂.elementTypes.lookup entry.1).isSome := by
        intro entry hentry
        rcases List.mem_append.mp hentry with hentry | hentry
        · exact hextends₂.isSome (hdone₁ entry hentry)
        · rw [List.mem_singleton.mp hentry]
          exact Option.isSome_of_eq_some hid
      have hsound₃ : Builder.Sound directory {} { b₂ with
          model := b₂.model.addElement { name, type := id } } :=
        ⟨hsound₂.pending_lt, hsound₂.builtin, hsound₂.element⟩
      obtain ⟨hsound', hle, added, helements, hstands⟩ :=
        ih (b := { b₂ with
          model := b₂.model.addElement { name, type := id } })
          (by simp [hdirectory]) hdone₂ hsound₃ hrun
      have hextends := hextends₁.trans hextends₂
      refine ⟨hsound', hextends.meaning_le.trans hle,
        { name, type := id } :: added, ?_,
        .cons ⟨rfl, rfl, hle.element _ _ hid⟩ hstands⟩
      rw [helements]
      simp [Model.addElement, hextends.elements]

end Elements

/-- A named type has the definition that its parts give. -/
inductive TypeContent.Means (M : Meaning) : TypeContent → TypeDef → Prop where
  | simple {items : List SimpleItem} {d : TypeDef}
    (hitems : SimpleItem.Define M items d) :
    TypeContent.Means M (.simple items) d
  | complex {items : List ComplexItem} {t : ComplexType}
    (hitems : ComplexItem.AllMean M items {} t) :
    TypeContent.Means M (.complex items) (.complex t)

theorem TypeContent.Means.mono {M N : Meaning} (hle : M.Le N)
    {content : TypeContent} {d : TypeDef} (hmeans : content.Means M d) :
    content.Means N d := by
  cases hmeans with
  | simple hitems => exact .simple (hitems.mono hle)
  | complex hitems => exact .complex (hitems.mono hle)

theorem gives_complexType {directory : Directory} {pending : Pending}
    {references : References} {expanding : List String}
    (hreferences : Interprets directory pending references expanding)
    (items : List ComplexItem) (b : Builder) :
    Gives directory pending b
      (fun b' d =>
        TypeContent.Means (b'.meaning directory pending) (.complex items) d)
      (do
        let t ← complexItems directory references expanding items {}
        return .complex t) := by
  apply (gives_complexItems hreferences items b {}).bind
  intro b₁ t _ hitems
  exact .of_pure (.complex hitems)

section Build

variable {declarations : List TopLevel} {c : Collection}

/-- Before anything is built all named types are pending. -/
theorem sound_collected (hholds : c.Holds declarations) :
    Builder.Sound c.directory
      ⟨c.simpleTypes.map (·.1) ++ c.complexTypes.map (·.1), []⟩
      { model := c.model } where
  pending_lt id hhas := by
    rcases hhas with hid | ⟨_, ⟨⟩⟩
    exact hholds.lt_length hid
  builtin name id hlookup := by
    rw [hholds.model] at hlookup
    cases hlookup
  element name id hlookup := by cases hlookup

/-- A model that is built has all named types and all top-level elements as they
are declared. -/
theorem sound_build (hholds : c.Holds declarations) {depth : Nat}
    {b : Builder}
    (hrun : (c.build (References.within c.directory depth)).run
      { model := c.model } = .ok ((), b)) :
    b.Sound c.directory {} ∧
      (∀ t ∈ namedTypes declarations, ∃ d, b.model.types[t.2]? = some d ∧
        t.1.2.Means (b.meaning c.directory {}) d) ∧
      List.Forall₂ (Stands b) c.directory.elements b.model.elements := by
  obtain ⟨_, b₁, hsimple, hrun⟩ := Conversion.run_bind_eq_ok_iff.mp hrun
  obtain ⟨_, b₂, hcomplex, helements⟩ := Conversion.run_bind_eq_ok_iff.mp hrun
  obtain ⟨hsound₁, -, hkept₁, hdefined₁⟩ := sound_forM_define
    (fun M items d => TypeContent.Means M (.simple items) d)
    (fun _ _ hle _ _ => .mono hle) (fun _ b items =>
      (gives_simpleType items b).mono fun _ _ _ => .simple)
    c.simpleTypes _ hholds.nodup (sound_collected hholds) hsimple
  have hcomplex : (c.complexTypes.forM fun t => do
      Conversion.define t.1 (← (do
        let type ← complexItems c.directory
          (References.within c.directory depth) [] t.2 {}
        return .complex type)) : Conversion Unit).run b₁ = .ok ((), b₂) := by
    simp only [bind_assoc, pure_bind]
    exact hcomplex
  obtain ⟨hsound₂, hle₂, hkept₂, hdefined₂⟩ := sound_forM_define
    (fun M items d => TypeContent.Means M (.complex items) d)
    (fun _ _ hle _ _ => .mono hle) (fun _ b items => gives_complexType
      (interprets_within depth _ []) items b)
    c.complexTypes [] (by simpa using (List.nodup_append.mp hholds.nodup).2.1)
    (by simpa using hsound₁) hcomplex
  obtain ⟨hsound, hle, added, hadded, hstands⟩ := sound_addElements
    (fun pending => interprets_within depth pending [])
    (List.nil_append _).symm nofun hsound₂ helements
  rw [List.append_nil] at hle₂
  have hle' := hle₂.trans hle
  refine ⟨hsound, fun t ht => ?_, ?_⟩
  · obtain ⟨⟨name, content⟩, id⟩ := t
    cases content with
    | simple items =>
        have hmem : (id, items) ∈ c.simpleTypes := by
          rw [hholds.simpleTypes]
          exact mem_contents.mpr ⟨_, ht, rfl, rfl⟩
        obtain ⟨d, hdefinition, hmeans⟩ := hdefined₁ _ hmem
        exact ⟨d, (hle'.definition _ _ hdefinition).1, hmeans.mono hle'⟩
    | complex items =>
        have hmem : (id, items) ∈ c.complexTypes := by
          rw [hholds.complexTypes]
          exact mem_contents.mpr ⟨_, ht, rfl, rfl⟩
        obtain ⟨d, hdefinition, hmeans⟩ := hdefined₂ _ hmem
        exact ⟨d, (hle.definition _ _ hdefinition).1, hmeans.mono hle⟩
  · rw [hadded, hkept₂, hkept₁, hholds.model]
    exact hstands

end Build

end Declaration

/-- Behind the number stands the builtin type with the name: its kind, and the
facets that are implied. -/
def Model.IsBuiltin (m : Model) (name : String) (id : TypeId) : Prop :=
  ∃ type, SimpleType.builtin? name = some type ∧
    ∀ node, m.resolve id node = .ok (some type)

/-- What names stand for in the model of some declarations.  A type is the last
one that is declared with its name, and a builtin one only if there is none. -/
def Model.meaning (m : Model) (declarations : List Declaration.TopLevel) :
    Declaration.Meaning where
  type name id :=
    match Declaration.declaredType declarations name with
    | some declared => id = declared
    | none => m.IsBuiltin name id
  builtin := m.IsBuiltin
  element name id := (m.element? name).map (·.type) = some id
  group name :=
    (declarations.filterMap Declaration.TopLevel.group?).reverse.lookup name
  definition id d := m.types[id]? = some d

namespace Declaration

section Finished

variable {declarations : List TopLevel} {c : Collection} {b : Builder}

theorem Builder.Sound.isBuiltin (hsound : b.Sound c.directory {})
    {name : String} {id : TypeId}
    (hlookup : b.model.builtins.lookup name = some id) :
    b.model.IsBuiltin name id := by
  have hat : Model.BuiltinAt
      (fun id d => b.model.types[id]? = some d) name id :=
    (hsound.builtin name id hlookup).mono fun _ _ hget => hget.1
  obtain ⟨type, hbuiltin⟩ := hat.exists_type
  exact ⟨type, hbuiltin, hat.resolve hbuiltin⟩

/-- The elements of the model have the types that were noted. -/
theorem element?_of_stands {entries : List (String × ElementDeclaration)}
    {elements : List ElementDecl}
    (hstands : List.Forall₂ (Stands b) entries elements)
    {name : String} {id : TypeId}
    (hlookup : b.elementTypes.lookup name = some id)
    (hin : name ∈ entries.map (·.1)) :
    (elements.find? (·.name == name)).map (·.type) = some id := by
  induction hstands with
  | nil => cases hin
  | @cons entry element entries elements hentry _ ih =>
      obtain ⟨hname, -, htype⟩ := hentry
      by_cases hsame : element.name = name
      · rw [List.find?_cons_of_pos (by simp [hsame])]
        rw [← hname, hsame, hlookup] at htype
        rw [Option.map_some, Option.some.inj htype]
      · rw [List.find?_cons_of_neg (by simp [hsame])]
        rcases List.mem_cons.mp hin with hfirst | hrest
        · exact absurd (hname.trans hfirst.symm) hsame
        · exact ih hrest

theorem lookup_of_stands {entries : List (String × ElementDeclaration)}
    {elements : List ElementDecl}
    (hstands : List.Forall₂ (Stands b) entries elements) {name : String}
    (hin : name ∈ entries.map (·.1)) :
    ∃ id, b.elementTypes.lookup name = some id := by
  induction hstands with
  | nil => cases hin
  | cons hentry _ ih =>
      rcases List.mem_cons.mp hin with rfl | hrest
      · exact ⟨_, hentry.2.2⟩
      · exact ih hrest

/-- What names stand for while a model is built they stand for in the model. -/
theorem Builder.meaning_le_model (hholds : c.Holds declarations)
    (hsound : b.Sound c.directory {})
    (hstands : List.Forall₂ (Stands b) c.directory.elements b.model.elements) :
    (b.meaning c.directory {}).Le (b.model.meaning declarations) where
  type name id htype := by
    unfold Builder.meaning at htype
    unfold Model.meaning
    dsimp only at htype ⊢
    rw [hholds.lookup_types] at htype
    split
    · simpa [*] using htype
    · exact hsound.isBuiltin (by simpa [*] using htype)
  builtin _ _ := hsound.isBuiltin
  element name id hlookup := by
    obtain ⟨decl, hdecl, -⟩ := hsound.element name id hlookup
    exact element?_of_stands hstands hlookup (mem_keys_of_lookup hdecl)
  group := by
    funext name
    unfold Builder.meaning Model.meaning
    rw [hholds.groups]
  definition _ _ hdefinition := hdefinition.1

end Finished

theorem toModel_eq_ok_iff {declarations : List TopLevel} {m : Model} :
    toModel declarations = .ok m ↔ ∃ (c : Collection) (b : Builder),
      Collection.ofTopLevel declarations = .ok c ∧
        (c.build (References.within c.directory c.directory.depth)).run
          { model := c.model } = .ok ((), b) ∧ b.model = m := by
  unfold toModel
  cases Collection.ofTopLevel declarations with
  | error e => simp [bind, Except.bind]
  | ok c =>
      cases hrun : (c.build (References.within c.directory
          c.directory.depth)).run { model := c.model } with
      | error e => simp [bind, Except.bind, Collection.toModel, hrun]
      | ok result =>
          simp [bind, Except.bind, pure, Except.pure, Collection.toModel, hrun,
            Prod.ext_iff]

/-- The model of some declarations has every named type and every top-level
element as they are declared. -/
theorem toModel_means {declarations : List TopLevel} {m : Model}
    (hmodel : toModel declarations = .ok m) :
    (∀ t ∈ namedTypes declarations, ∃ d, m.types[t.2]? = some d ∧
      t.1.2.Means (m.meaning declarations) d) ∧
    ∀ name decl, (declarations.filterMap TopLevel.element?).lookup name =
      some decl → ∃ e, m.element? name = some e ∧
        decl.Means (m.meaning declarations) e.type := by
  obtain ⟨c, b, hcollected, hrun, rfl⟩ := toModel_eq_ok_iff.mp hmodel
  have hholds := Collection.holds_ofTopLevel hcollected
  obtain ⟨hsound, htypes, hstands⟩ := sound_build hholds hrun
  have hle := Builder.meaning_le_model hholds hsound hstands
  refine ⟨fun t ht => ?_, fun name decl hdecl => ?_⟩
  · obtain ⟨d, hget, hmeans⟩ := htypes t ht
    exact ⟨d, hget, hmeans.mono hle⟩
  · rw [← hholds.elements] at hdecl
    obtain ⟨id, hid⟩ := lookup_of_stands hstands (mem_keys_of_lookup hdecl)
    obtain ⟨e, he, rfl⟩ := Option.map_eq_some_iff.mp (hle.element name id hid)
    obtain ⟨decl', hdecl', hmeans | ⟨-, ⟨⟩⟩⟩ := hsound.element name _ hid
    cases hdecl.symm.trans hdecl'
    exact ⟨e, he, hmeans.mono hle⟩

end Declaration

namespace Model.ReferenceWitness

/-- An element refers to a builtin type, and a type is declared that has the
same name. -/
def captured : String :=
  "<xs:schema xmlns:xs=\"http://www.w3.org/2001/XMLSchema\">" ++
    "<xs:element name=\"a\" type=\"xs:string\"/>" ++
    "<xs:simpleType name=\"string\"><xs:restriction base=\"xs:date\"/>" ++
    "</xs:simpleType></xs:schema>"

end Model.ReferenceWitness

end Specimen
