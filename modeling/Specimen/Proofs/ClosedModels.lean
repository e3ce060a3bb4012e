/-
Converted models are closed.  Every type number that is stored in a model has a
definition there, although numbers are given away before there are definitions.
The numbers of named types come first and get their definitions later; builtin
types get theirs at once, and keep them.
-/
import Mathlib.Order.Nat
import Specimen.Proofs.Alongside
import Specimen.Proofs.Origins
import Specimen.Proofs.TypeReferences
import Specimen.Schema.Listing

namespace Specimen

/-- Every type number that is stored in the model has a definition there. -/
structure Model.Closed (m : Model) : Prop where
  types : ∀ d ∈ m.types, ∀ id ∈ d.mentions, id < m.types.length
  elements : ∀ e ∈ m.elements, e.type < m.types.length

section Mentions

variable {same : TypeId → TypeId → Prop}

mutual

theorem Particle.Linked.exists_same {p q : Particle} :
    p.Linked same q → ∀ id ∈ p.mentions, ∃ id', same id id'
  | .element _ _ htype, id, hid => by
    obtain rfl := List.mem_singleton.mp hid
    exact ⟨_, htype⟩
  | .group _ _ hchildren, id, hid => by
    rw [Particle.mentions, GroupOf.mentions] at hid
    exact hchildren.exists_same id hid
  | .any _, id, hid => by
    rw [Particle.mentions] at hid
    exact absurd hid List.not_mem_nil

theorem Particle.AllLinked.exists_same {ps qs : List Particle} :
    Particle.AllLinked same ps qs →
      ∀ id ∈ Particle.mentionsAll ps, ∃ id', same id id'
  | .nil, id, hid => by
    rw [Particle.mentionsAll] at hid
    exact absurd hid List.not_mem_nil
  | .cons hfirst hrest, id, hid => by
    rw [Particle.mentionsAll, List.mem_append] at hid
    exact hid.elim (hfirst.exists_same id) (hrest.exists_same id)

end

theorem AttributeDecl.Linked.exists_same {as bs : List AttributeDecl}
    (hlinked : List.Forall₂ (AttributeDecl.Linked same) as bs) :
    ∀ a ∈ as, ∃ id', same a.type id' := by
  induction hlinked with
  | nil => exact nofun
  | cons hfirst _ ih =>
      obtain ⟨_, _, htype⟩ := hfirst
      exact List.forall_mem_cons.mpr ⟨⟨_, htype⟩, ih⟩

theorem ComplexType.Linked.exists_same {t u : ComplexType}
    (hlinked : t.Linked same u) :
    ∀ id ∈ (TypeDef.complex t).mentions, ∃ id', same id id' := by
  obtain ⟨hcontent, hattributes⟩ := hlinked
  intro id hid
  rw [TypeDef.mentions, List.mem_append, List.mem_map] at hid
  rcases hid with ⟨a, ha, rfl⟩ | hid
  · exact AttributeDecl.Linked.exists_same hattributes a ha
  · cases hcontent with
    | none => exact absurd hid List.not_mem_nil
    | some hgroup => exact Particle.Linked.exists_same hgroup id hid

/-- The numbers that a definition mentions have counterparts. -/
theorem TypeDef.Linked.exists_same {d e : TypeDef} (hlinked : d.Linked same e) :
    ∀ id ∈ d.mentions, ∃ id', same id id' := by
  cases hlinked with
  | builtin kind => exact nofun
  | restriction facets hbase =>
      intro id hid
      obtain rfl := List.mem_singleton.mp hid
      exact ⟨_, hbase⟩
  | complex htype => exact htype.exists_same

end Mentions

namespace Model

variable {m m' : Model}

/-- A closed model stays closed where what is new in it has definitions. -/
theorem Closed.grow (hclosed : m.Closed)
    (hlength : m.types.length ≤ m'.types.length)
    (htypes : ∀ d ∈ m'.types,
      d ∈ m.types ∨ ∀ id ∈ d.mentions, id < m'.types.length)
    (helements : ∀ e ∈ m'.elements,
      e ∈ m.elements ∨ e.type < m'.types.length) : m'.Closed where
  types d hd id hid := by
    rcases htypes d hd with hold | hnew
    · exact (hclosed.types d hold id hid).trans_le hlength
    · exact hnew id hid
  elements e he := by
    rcases helements e he with hold | hnew
    · exact (hclosed.elements e hold).trans_le hlength
    · exact hnew

theorem Closed.append (hclosed : m.Closed) {d : TypeDef}
    (hd : ∀ id ∈ d.mentions, id < m.types.length) :
    Closed { m with types := m.types ++ [d] } := by
  have hlength : m.types.length ≤ (m.types ++ [d]).length :=
    (List.prefix_append _ _).length_le
  refine hclosed.grow hlength (fun d' hd' => ?_) fun e he => .inl he
  rcases List.mem_append.mp hd' with hold | hnew
  · exact .inl hold
  · obtain rfl := List.mem_singleton.mp hnew
    exact .inr fun id hid => (hd id hid).trans_le hlength

theorem Closed.define (hclosed : m.Closed) {d : TypeDef}
    (hd : ∀ id ∈ d.mentions, id < m.types.length) (id : TypeId) :
    (m.define id d).Closed := by
  have hlength : (m.define id d).types.length = m.types.length :=
    List.length_set
  refine hclosed.grow hlength.ge (fun d' hd' => ?_) fun e he => .inl he
  rw [hlength]
  rcases List.mem_or_eq_of_mem_set hd' with hold | rfl
  · exact .inl hold
  · exact .inr hd

theorem Closed.addElement (hclosed : m.Closed) {e : ElementDecl}
    (he : e.type < m.types.length) : (m.addElement e).Closed :=
  hclosed.grow le_rfl (fun _ => .inl) fun e' he' =>
    (List.mem_append.mp he').imp_right fun hnew => by
      rwa [List.mem_singleton.mp hnew]

end Model

namespace Declaration

namespace Builder

/-- Numbers are given away in order, and builtin types keep their numbers and
their definitions. -/
structure Continues (b b' : Builder) : Prop where
  length_le : b.model.types.length ≤ b'.model.types.length
  kept : ∀ name id, b.model.builtins.lookup name = some id →
    b'.model.builtins.lookup name = some id ∧
      b'.model.types[id]? = b.model.types[id]?
  fresh : ∀ name id, b'.model.builtins.lookup name = some id →
    b.model.builtins.lookup name = some id ∨ b.model.types.length ≤ id

/-- What is stored has definitions, and the first numbers are those of named
types. -/
structure Closed (reserved : Nat) (b : Builder) : Prop where
  model : b.model.Closed
  reserved_le : reserved ≤ b.model.types.length
  builtins : ∀ name id, b.model.builtins.lookup name = some id →
    reserved ≤ id ∧ id < b.model.types.length
  elementTypes : ∀ name id, b.elementTypes.lookup name = some id →
    id < b.model.types.length

variable {reserved : Nat} {b b' b'' : Builder}

theorem Continues.refl (b : Builder) : b.Continues b :=
  ⟨le_rfl, fun _ _ hlookup => ⟨hlookup, rfl⟩, fun _ _ => .inl⟩

theorem Continues.trans (hfirst : b.Continues b') (hsecond : b'.Continues b'') :
    b.Continues b'' where
  length_le := hfirst.length_le.trans hsecond.length_le
  kept name id hlookup := by
    obtain ⟨hlookup', hsame⟩ := hfirst.kept name id hlookup
    obtain ⟨hlookup'', hsame'⟩ := hsecond.kept name id hlookup'
    exact ⟨hlookup'', hsame'.trans hsame⟩
  fresh name id hlookup := by
    rcases hsecond.fresh name id hlookup with hold | hnew
    · exact hfirst.fresh name id hold
    · exact .inr (hfirst.length_le.trans hnew)

/-- Where types are added and no builtin type is met, builders continue. -/
theorem Closed.continues_of_prefix (hclosed : b.Closed reserved)
    (htypes : b.model.types <+: b'.model.types)
    (hbuiltins : b'.model.builtins = b.model.builtins) : b.Continues b' where
  length_le := htypes.length_le
  kept name id hlookup := by
    refine ⟨hbuiltins ▸ hlookup, ?_⟩
    obtain ⟨rest, hrest⟩ := htypes
    rw [← hrest, List.getElem?_append_left (hclosed.builtins name id hlookup).2]
  fresh name id hlookup := .inl (hbuiltins ▸ hlookup)

/-- A number that no builtin type has may get another definition. -/
theorem continues_define {id : TypeId}
    (hfree : ∀ name, b.model.builtins.lookup name ≠ some id) (d : TypeDef) :
    b.Continues { b with model := b.model.define id d } where
  length_le := (List.length_set).ge
  kept name id' hlookup := by
    have hne : id ≠ id' := by
      rintro rfl
      exact hfree name hlookup
    exact ⟨hlookup, List.getElem?_set_ne hne⟩
  fresh _ _ := .inl

theorem Closed.append (hclosed : b.Closed reserved) {d : TypeDef}
    (hd : ∀ id ∈ d.mentions, id < b.model.types.length) :
    Closed reserved
      { b with model := { b.model with types := b.model.types ++ [d] } } := by
  have hlength : b.model.types.length ≤ (b.model.types ++ [d]).length :=
    (List.prefix_append _ _).length_le
  exact ⟨hclosed.model.append hd, hclosed.reserved_le.trans hlength,
    fun name id hlookup => (hclosed.builtins name id hlookup).imp_right
      fun hlt => hlt.trans_le hlength,
    fun name id hlookup =>
      (hclosed.elementTypes name id hlookup).trans_le hlength⟩

theorem Closed.define (hclosed : b.Closed reserved) {d : TypeDef}
    (hd : ∀ id ∈ d.mentions, id < b.model.types.length) (id : TypeId) :
    Closed reserved { b with model := b.model.define id d } := by
  have hlength : (b.model.define id d).types.length = b.model.types.length :=
    List.length_set
  exact ⟨hclosed.model.define hd id, by rw [hlength]; exact hclosed.reserved_le,
    fun name id hlookup => by
      rw [hlength]; exact hclosed.builtins name id hlookup,
    fun name id hlookup => by
      rw [hlength]; exact hclosed.elementTypes name id hlookup⟩

theorem Closed.note (hclosed : b.Closed reserved) {id : TypeId}
    (hid : id < b.model.types.length) (name : String) :
    Closed reserved { b with
      elementTypes := (name, id) :: b.elementTypes } where
  model := hclosed.model
  reserved_le := hclosed.reserved_le
  builtins := hclosed.builtins
  elementTypes other id' hlookup := by
    rcases lookup_cons_eq_some_iff.mp hlookup with ⟨-, rfl⟩ | ⟨-, hold⟩
    · exact hid
    · exact hclosed.elementTypes other id' hold

/-- A builtin type that is met for the first time gets the next number. -/
theorem Closed.intern (hclosed : b.Closed reserved) {name : String}
    {type : TypeDef} (hnew : b.model.builtins.lookup name = none)
    (htype : b.model.Interns name type) :
    Closed reserved { b with model := b.model.intern name type } ∧
      b.Continues { b with model := b.model.intern name type } := by
  have hmentions : ∀ id ∈ type.mentions, id < b.model.types.length := by
    cases htype with
    | primitive => exact nofun
    | derived hbuiltin hfacets hbase =>
        intro id hid
        obtain rfl := List.mem_singleton.mp hid
        exact (hclosed.builtins _ _ hbase).2
  have hadded := hclosed.append hmentions
  have hlookup {other : String} {id : TypeId}
      (hlookup : (b.model.intern name type).builtins.lookup other = some id) :
      other = name ∧ b.model.types.length = id ∨
        b.model.builtins.lookup other = some id := by
    rcases lookup_cons_eq_some_iff.mp hlookup with hself | ⟨-, hold⟩
    · exact .inl hself
    · exact .inr hold
  constructor
  · refine ⟨⟨hadded.model.types, hadded.model.elements⟩, hadded.reserved_le,
      fun other id hother => ?_, hadded.elementTypes⟩
    rcases hlookup hother with ⟨-, rfl⟩ | hold
    · exact ⟨hclosed.reserved_le, by simp [Model.intern]⟩
    · exact hadded.builtins other id hold
  · refine ⟨(List.prefix_append _ _).length_le, fun other id hother => ?_,
      fun other id hother => ?_⟩
    · exact ⟨lookup_cons_of_lookup hnew hother,
        List.getElem?_append_left (hclosed.builtins _ _ hother).2⟩
    · rcases hlookup hother with ⟨-, rfl⟩ | hold
      · exact .inr le_rfl
      · exact .inl hold

end Builder

open Builder (Continues Closed)

/-- A conversion beside itself: builders stay closed, and what is stored are
numbers that have definitions. -/
def closing (reserved : Nat) : Comparison Builder where
  later := Continues
  holds w s t := w = s ∧ w = t ∧ w.Closed reserved
  same w i j := i = j ∧ i < w.model.types.length
  firstMay _ := False
  secondMay _ := False
  bothMay _ _ := True
  later_refl := .refl
  later_trans := .trans
  same_later hlater hsame := ⟨hsame.1, hsame.2.trans_le hlater.length_le⟩
  bothMay_self _ := trivial

section Closing

variable {reserved : Nat} {w b b' : Builder} {α : Type}
  {related : Builder → α → α → Prop} {x : Conversion α}

theorem alongside_itself
    (hx : w.Closed reserved → ∀ a b, x.run w = .ok (a, b) →
      w.Continues b ∧ b.Closed reserved ∧ related b a a) :
    (closing reserved).Alongside w related x x := by
  rintro _ _ ⟨rfl, rfl, hclosed⟩
  cases hrun : x.run w with
  | ok result =>
      obtain ⟨a, b⟩ := result
      obtain ⟨hlater, hclosed', hrelated⟩ := hx hclosed a b hrun
      exact .ok b hlater ⟨rfl, rfl, hclosed'⟩ hrelated
  | error e => exact .both trivial

theorem closed_of_alongside
    (halongside : (closing reserved).Alongside w related x x)
    (hclosed : w.Closed reserved) {a : α} (hrun : x.run w = .ok (a, b)) :
    w.Continues b ∧ b.Closed reserved ∧ related b a a := by
  have houtcome := halongside w w ⟨rfl, rfl, hclosed⟩
  rw [hrun] at houtcome
  cases houtcome with
  | ok w' hlater hholds hrelated =>
      obtain ⟨rfl, -, hclosed'⟩ := hholds
      exact ⟨hlater, hclosed', hrelated⟩

/-- Linked definitions are one definition, and what it mentions is there. -/
theorem mentions_of_linked {d d' : TypeDef}
    (hlinked : d.Linked ((closing reserved).same w) d') :
    d = d' ∧ ∀ id ∈ d.mentions, id < w.model.types.length := by
  refine ⟨(hlinked.mono fun _ _ hsame => hsame.1).eq, fun id hid => ?_⟩
  obtain ⟨_, -, hlt⟩ := hlinked.exists_same id hid
  exact hlt

theorem closed_of_run_builtin (hclosed : w.Closed reserved) {name : String}
    {id : TypeId} (hrun : (Conversion.builtin name).run w = .ok (id, b)) :
    w.Continues b ∧ b.Closed reserved ∧ id = id ∧
      id < b.model.types.length := by
  rw [Conversion.run_builtin] at hrun
  split at hrun
  · rename_i found model hbuiltin
    cases hrun
    obtain ⟨⟨hcontinues, hclosed'⟩, hlookup⟩ := Model.builtin?_induction
      (motive := fun m => w.Continues { w with model := m } ∧
        Closed reserved { w with model := m })
      ⟨.refl w, hclosed⟩
      (fun m other type _ hnew htype hm => by
        obtain ⟨hclosed', hcontinues⟩ := hm.2.intern hnew htype
        exact ⟨hm.1.trans hcontinues, hclosed'⟩)
      hbuiltin
    exact ⟨hcontinues, hclosed', rfl, (hclosed'.builtins _ _ hlookup).2⟩
  · cases hrun

theorem alongside_define_of_lt {id : TypeId}
    (hfree : w.Closed reserved → ∀ name,
      w.model.builtins.lookup name ≠ some id) {d d' : TypeDef}
    (hlinked : d.Linked ((closing reserved).same w) d') :
    (closing reserved).Alongside w (fun _ _ _ => True)
      (Conversion.define id d) (Conversion.define id d') := by
  obtain ⟨rfl, hmentions⟩ := mentions_of_linked hlinked
  refine alongside_itself fun hclosed _ b hrun => ?_
  rw [Conversion.run_define] at hrun
  cases hrun
  exact ⟨Builder.continues_define (hfree hclosed) d,
    hclosed.define hmentions id, trivial⟩

variable {directory : Directory}
  (hdirectory : ∀ name id, directory.types.lookup name = some id →
    id < reserved)

include hdirectory

theorem closing_supports : (closing reserved).Supports directory directory where
  add w d d' hlinked := by
    obtain ⟨rfl, hmentions⟩ := mentions_of_linked hlinked
    refine alongside_itself fun hclosed id b hrun => ?_
    rw [Conversion.run_add] at hrun
    cases hrun
    refine ⟨hclosed.continues_of_prefix (List.prefix_append _ _) rfl,
      hclosed.append hmentions, rfl, ?_⟩
    rw [List.length_append]
    exact Nat.lt_succ_self _
  builtin w name := by
    refine alongside_itself fun hclosed id b hrun => ?_
    exact closed_of_run_builtin hclosed hrun
  type w name := by
    rw [Conversion.type]
    cases hlookup : directory.types.lookup name with
    | some declared =>
        refine alongside_itself fun hclosed id b hrun => ?_
        cases hrun
        exact ⟨.refl w, hclosed, rfl,
          (hdirectory name declared hlookup).trans_le hclosed.reserved_le⟩
    | none =>
        refine alongside_itself fun hclosed id b hrun => ?_
        exact closed_of_run_builtin hclosed hrun
  refer w name := by
    refine alongside_itself fun hclosed _ b hrun => ?_
    rw [Conversion.run_refer, addReference_eq] at hrun
    cases hrun
    exact ⟨⟨le_rfl, fun _ _ hlookup => ⟨hlookup, rfl⟩, fun _ _ => .inl⟩,
      ⟨⟨hclosed.model.types, hclosed.model.elements⟩, hclosed.reserved_le,
        hclosed.builtins, hclosed.elementTypes⟩, trivial⟩

section TopLevel

variable {references : References} {expanding : List String}
  (hfollow : ∀ w, Follow (closing reserved) references references expanding
    expanding w fun _ => True)

include hfollow

theorem closing_inlineType (name : String) (items : List ElementItem) :
    (closing reserved).Alongside w (closing reserved).same
      (inlineType directory references expanding name items)
      (inlineType directory references expanding name items) := by
  refine alongside_itself fun hclosed id b₂ hrun => ?_
  rw [run_inlineType, run_filledType_eq_ok_iff] at hrun
  obtain ⟨found, b₁, hitems, hfill, rfl⟩ := hrun
  have hlt : w.model.types.length < (w.reserve name).model.types.length := by
    rw [Builder.reserve, List.length_append]
    exact Nat.lt_succ_self _
  have hmentionless : ∀ id ∈ (TypeDef.builtin .anyType).mentions,
      id < w.model.types.length := by simp [TypeDef.mentions]
  have hreserved : (w.reserve name).Closed reserved :=
    (hclosed.append hmentionless).note hlt name
  obtain ⟨hcontinues, hclosed₁, hlinked⟩ := closed_of_alongside
    (alongside_elementItems (closing_supports hdirectory) (hfollow _) items
      .none (.refl _) fun _ _ => trivial) hreserved hitems
  have hcontinues₀ : w.Continues (w.reserve name) :=
    hclosed.continues_of_prefix (List.prefix_append _ _) rfl
  have hcontinues₁ := hcontinues₀.trans hcontinues
  have hlt₁ := hlt.trans_le hcontinues.length_le
  have hfree (other : String) :
      b₁.model.builtins.lookup other ≠ some w.model.types.length := by
    intro hlookup
    rcases hcontinues.fresh other _ hlookup with hold | hnew
    · exact (hclosed.builtins other _ hold).2.false
    · exact (hlt.trans_le hnew).false
  cases hlinked with
  | none =>
      cases hfill
      exact ⟨hcontinues₁, hclosed₁, rfl, hlt₁⟩
  | some hlinked =>
      obtain ⟨-, hmentions⟩ := mentions_of_linked hlinked
      cases hfill
      refine ⟨hcontinues₁.trans (Builder.continues_define hfree _),
        hclosed₁.define hmentions _, rfl, ?_⟩
      exact hlt₁.trans_le (List.length_set).ge

theorem closing_namedType (name type : String) (items : List ElementItem) :
    (closing reserved).Alongside w (closing reserved).same
      (namedType directory references expanding name type items)
      (namedType directory references expanding name type items) := by
  have hsupports := closing_supports hdirectory
  rw [namedType]
  apply (alongside_elementItems hsupports (hfollow w) items .none (.refl w)
    fun _ _ => trivial).bind
  rintro w₁ - inline _ (hlinked | -)
  · exact .of_throw trivial
  · apply (hsupports.type w₁ type).bind
    rintro w₂ - id _ ⟨rfl, hlt⟩
    refine alongside_itself fun hclosed id' b hrun => ?_
    cases hrun
    exact ⟨⟨le_rfl, fun _ _ hlookup => ⟨hlookup, rfl⟩, fun _ _ => .inl⟩,
      hclosed.note hlt name, rfl, hlt⟩

theorem closing_topLevelType (name : String) (decl : ElementDeclaration) :
    (closing reserved).Alongside w (closing reserved).same
      (topLevelType directory references expanding name decl)
      (topLevelType directory references expanding name decl) := by
  refine alongside_itself fun hclosed id b hrun => ?_
  cases hlookup : w.elementTypes.lookup name with
  | some found =>
      rw [run_topLevelType_of_some _ _ _ hlookup] at hrun
      cases hrun
      exact ⟨.refl w, hclosed, rfl, hclosed.elementTypes name _ hlookup⟩
  | none =>
      rw [run_topLevelType_of_none _ _ _ hlookup] at hrun
      split at hrun
      · exact closed_of_alongside
          (closing_namedType hdirectory hfollow name _ decl.items) hclosed hrun
      · exact closed_of_alongside
          (closing_inlineType hdirectory hfollow name decl.items) hclosed hrun

end TopLevel

/-- However many references are followed into one another. -/
theorem closing_within (depth : Nat) (expanding : List String) (w : Builder) :
    Follow (closing reserved) (References.within directory depth)
      (References.within directory depth) expanding expanding w
      fun _ => True := by
  induction depth generalizing expanding w with
  | zero =>
      exact ⟨fun _ _ _ _ => .of_both trivial, fun _ _ _ _ => .of_both trivial⟩
  | succ depth ih =>
      constructor
      · intro w' _ name _
        change (closing reserved).Alongside w' _ (namedGroup directory
          (References.within directory depth) expanding name)
            (namedGroup _ _ _ _)
        rw [namedGroup]
        split
        · exact .of_both trivial
        · split
          · exact .of_throw trivial
          · exact alongside_groupContent (closing_supports hdirectory)
              (ih (name :: expanding) w') name _ fun _ _ => trivial
      · intro w' _ name _
        change (closing reserved).Alongside w' _ (namedElement directory
          (References.within directory depth) expanding name)
            (namedElement _ _ _ _)
        rw [namedElement]
        split
        · exact .of_throw trivial
        · exact closing_topLevelType hdirectory (ih expanding) name _

end Closing

/-- The steps that build what was collected: one for every named type, and one
for every top-level element. -/
def Collection.steps (c : Collection) (references : References) :
    List (Conversion Unit) :=
  (c.simpleTypes.map fun (id, items) => do
    Conversion.define id (← simpleType c.directory items)) ++
  (c.complexTypes.map fun (id, items) => do
    let type ← complexItems c.directory references [] items {}
    Conversion.define id (.complex type)) ++
  c.directory.elements.map (addElement c.directory references [])

theorem Collection.build_eq (c : Collection) (references : References) :
    c.build references = (c.steps references).forM id := by
  simp only [build, steps, defineSimple, defineComplex, addElements_eq,
    List.forM_eq_forM, List.forM_append, List.forM_map, id, bind_assoc]

theorem Collection.Holds.lt_length_of_mem {declarations : List TopLevel}
    {c : Collection} (hholds : c.Holds declarations)
    {t : (String × TypeContent) × TypeId} (ht : t ∈ namedTypes declarations) :
    t.2 < c.model.types.length := by
  rw [hholds.model, List.length_replicate, namedTypes, List.length_zipIdx]
  exact (List.getElem?_eq_some_iff.mp (getElem?_of_mem_namedTypes ht)).1

theorem Collection.Holds.lookup_lt_length {declarations : List TopLevel}
    {c : Collection} (hholds : c.Holds declarations) (name : String)
    (id : TypeId) (hlookup : c.directory.types.lookup name = some id) :
    id < c.model.types.length := by
  have hmem := mem_of_lookup hlookup
  rw [hholds.types, List.mem_reverse, List.mem_map] at hmem
  obtain ⟨t, ht, hentry⟩ := hmem
  obtain ⟨-, rfl⟩ := Prod.mk.inj hentry
  exact hholds.lt_length_of_mem ht

section Build

variable {declarations : List TopLevel} {c : Collection}
  (hholds : c.Holds declarations)

include hholds

theorem closed_collected :
    Builder.Closed c.model.types.length { model := c.model } where
  model := by
    rw [hholds.model]
    refine ⟨fun d hd => ?_, nofun⟩
    obtain rfl := List.eq_of_mem_replicate hd
    exact nofun
  reserved_le := le_rfl
  builtins name id hlookup := by
    rw [hholds.model] at hlookup
    cases hlookup
  elementTypes := nofun

/-- Every step of building keeps builders closed. -/
theorem closing_steps (depth : Nat) :
    ∀ step ∈ c.steps (References.within c.directory depth), ∀ w,
      (closing c.model.types.length).Alongside w (fun _ _ _ => True)
        step step := by
  have hdirectory := hholds.lookup_lt_length
  have hsupports := closing_supports hdirectory
  have hnamed {id : TypeId}
      (hid : id ∈ c.simpleTypes.map (·.1) ++ c.complexTypes.map (·.1))
      {w : Builder} (hclosed : w.Closed c.model.types.length) (name : String) :
      w.model.builtins.lookup name ≠ some id := fun hlookup =>
    (hholds.lt_length hid).not_ge (hclosed.builtins name id hlookup).1
  intro step hstep w
  rw [Collection.steps, List.mem_append, List.mem_append, List.mem_map,
    List.mem_map, List.mem_map] at hstep
  obtain (⟨⟨id, items⟩, hmem, rfl⟩ | ⟨⟨id, items⟩, hmem, rfl⟩) |
    ⟨⟨name, decl⟩, -, rfl⟩ := hstep
  · apply (alongside_simpleType hsupports items).bind
    intro w' _ d d' hlinked
    exact alongside_define_of_lt (hnamed (List.mem_append_left _
      (List.mem_map_of_mem hmem))) hlinked
  · apply (alongside_complexItems hsupports
      (closing_within hdirectory depth [] w)
      items (.intro .none .nil) (.refl w) fun _ _ => trivial).bind
    intro w' _ t u hlinked
    exact alongside_define_of_lt (hnamed (List.mem_append_right _
      (List.mem_map_of_mem hmem))) (.complex hlinked)
  · apply (alongside_checkHead decl.head name).bind
    intro w₁ _ _ _ _
    apply (closing_topLevelType hdirectory
      (closing_within hdirectory depth []) name decl).bind
    rintro w₂ - id _ ⟨rfl, hlt⟩
    refine alongside_itself fun hclosed _ b hrun => ?_
    cases hrun
    exact ⟨⟨le_rfl, fun _ _ hlookup => ⟨hlookup, rfl⟩, fun _ _ => .inl⟩,
      ⟨hclosed.model.addElement hlt, hclosed.reserved_le, hclosed.builtins,
        hclosed.elementTypes⟩, trivial⟩

/-- So does any number of steps, one behind the other. -/
theorem closed_of_run {depth : Nat} {steps : List (Conversion Unit)}
    (hsteps : ∀ step ∈ steps,
      step ∈ c.steps (References.within c.directory depth))
    {b b' : Builder} (hclosed : b.Closed c.model.types.length)
    (hrun : (steps.forM id).run b = .ok ((), b')) :
    b.Continues b' ∧ b'.Closed c.model.types.length := by
  have halongside : (closing c.model.types.length).Alongside b
      (fun _ _ _ => True) (steps.forM id) (steps.forM id) :=
    Comparison.Alongside.forM steps fun w _ step hstep =>
      closing_steps hholds depth step (hsteps step hstep) w
  obtain ⟨hcontinues, hclosed', -⟩ :=
    closed_of_alongside halongside hclosed hrun
  exact ⟨hcontinues, hclosed'⟩

end Build

end Declaration

end Specimen
