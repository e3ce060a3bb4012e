/-
Which top-level elements conversion notes as referred to.  Content notes what it
refers to, also by way of named groups.  The content of a top-level element is
built where the element is met for the first time, so that its references are
noted with those of whatever meets it.
-/
import Mathlib.Logic.Relation
import Specimen.Proofs.Alongside
import Specimen.Proofs.Origins
import Specimen.Proofs.TypeReferences

namespace Specimen

namespace Declaration

/-- A reference to a named group stands for what the group refers to that it
begins with. -/
inductive Directory.Opens (D : Directory) : Target → Target → Prop
  | group {name : String} {order : Order} {occurs : Occurs}
    {items rest : List GroupItem} {target : Target}
    (hgroup : D.groups.lookup name = some (.group order occurs items :: rest))
    (htarget : target ∈ targetsInGroup items) : Opens D (.group name) target

/-- The targets lead to a top-level element, directly or by way of groups. -/
def Directory.Reaches (D : Directory) (targets : List Target) (name : String) :
    Prop :=
  ∃ target ∈ targets, Relation.ReflTransGen D.Opens target (.element name)

/-- The content of a top-level element leads to a top-level element. -/
def Directory.ReachedFrom (D : Directory) (parent name : String) : Prop :=
  ∃ decl, D.elements.lookup parent = some decl ∧
    D.Reaches (targetsInElement decl.items) name

section Reaches

variable {D : Directory} {first second : List Target} {name : String}

theorem reaches_append :
    D.Reaches (first ++ second) name ↔
      D.Reaches first name ∨ D.Reaches second name := by
  simp only [Directory.Reaches, List.mem_append, or_and_right, exists_or]

theorem reaches_flatMap {ι : Type} {l : List ι} {targets : ι → List Target} :
    D.Reaches (l.flatMap targets) name ↔
      ∃ i ∈ l, D.Reaches (targets i) name := by
  constructor
  · rintro ⟨target, htarget, hpath⟩
    obtain ⟨i, hi, htarget⟩ := List.mem_flatMap.mp htarget
    exact ⟨i, hi, target, htarget, hpath⟩
  · rintro ⟨i, hi, target, htarget, hpath⟩
    exact ⟨target, List.mem_flatMap.mpr ⟨i, hi, htarget⟩, hpath⟩

theorem not_reaches_nil : ¬ D.Reaches [] name := by
  rintro ⟨_, ⟨⟩, -⟩

theorem reaches_element_iff {other : String} :
    D.Reaches [.element other] name ↔ name = other := by
  constructor
  · rintro ⟨_, htarget, hpath⟩
    obtain rfl := List.mem_singleton.mp htarget
    obtain heq | ⟨_, ⟨⟩, -⟩ := hpath.cases_head
    exact (Target.element.inj heq).symm
  · rintro rfl
    exact ⟨_, List.mem_singleton.mpr rfl, .refl⟩

theorem reaches_group_iff {group : String} {order : Order} {occurs : Occurs}
    {items rest : List GroupItem}
    (hgroup : D.groups.lookup group =
      some (.group order occurs items :: rest)) :
    D.Reaches [.group group] name ↔ D.Reaches (targetsInGroup items) name := by
  constructor
  · rintro ⟨_, htarget, hpath⟩
    obtain rfl := List.mem_singleton.mp htarget
    obtain ⟨⟨⟩⟩ | ⟨next, hopens, hrest⟩ := hpath.cases_head
    obtain ⟨hgroup', hnext⟩ := hopens
    cases hgroup.symm.trans hgroup'
    exact ⟨next, hnext, hrest⟩
  · rintro ⟨next, hnext, hpath⟩
    exact ⟨_, List.mem_singleton.mpr rfl, hpath.head ⟨hgroup, hnext⟩⟩

end Reaches

def Builder.Met (b : Builder) (name : String) : Prop :=
  (b.elementTypes.lookup name).isSome

/-- What is noted between two builders: where the targets lead to, and whatever
the contents of top-level elements lead to that are met in between. -/
structure Builder.Notes (D : Directory) (targets : List Target)
    (b b' : Builder) : Prop where
  kept : ∀ name ∈ b.model.references, name ∈ b'.model.references
  reached : ∀ name, D.Reaches targets name → name ∈ b'.model.references
  new : ∀ name ∈ b'.model.references, name ∈ b.model.references ∨
    D.Reaches targets name ∨ ∃ parent, D.ReachedFrom parent name
  met : ∀ name, b.Met name → b'.Met name
  complete : ∀ parent, b'.Met parent → b.Met parent ∨
    ∀ name, D.ReachedFrom parent name → name ∈ b'.model.references

namespace Builder.Notes

variable {D : Directory} {targets first second : List Target}
  {b b' b'' : Builder}

theorem of_same (hreferences : b'.model.references = b.model.references)
    (helements : b'.elementTypes = b.elementTypes) : Notes D [] b b' where
  kept _ hname := hreferences ▸ hname
  reached _ hreaches := absurd hreaches not_reaches_nil
  new _ hname := .inl (hreferences ▸ hname)
  met _ hmet := by rw [Met, helements]; exact hmet
  complete _ hmet := .inl (by rw [Met, helements] at hmet; exact hmet)

theorem trans (hfirst : Notes D first b b') (hsecond : Notes D second b' b'') :
    Notes D (first ++ second) b b'' where
  kept name hname := hsecond.kept name (hfirst.kept name hname)
  reached name hreaches := by
    rcases reaches_append.mp hreaches with hreaches | hreaches
    · exact hsecond.kept name (hfirst.reached name hreaches)
    · exact hsecond.reached name hreaches
  new name hname := by
    rcases hsecond.new name hname with hname | hreaches | hparent
    · rcases hfirst.new name hname with hname | hreaches | hparent
      · exact .inl hname
      · exact .inr (.inl (reaches_append.mpr (.inl hreaches)))
      · exact .inr (.inr hparent)
    · exact .inr (.inl (reaches_append.mpr (.inr hreaches)))
    · exact .inr (.inr hparent)
  met name hmet := hsecond.met name (hfirst.met name hmet)
  complete parent hmet := by
    rcases hsecond.complete parent hmet with hmet | hcomplete
    · rcases hfirst.complete parent hmet with hmet | hcomplete
      · exact .inl hmet
      · exact .inr fun name hname => hsecond.kept name (hcomplete name hname)
    · exact .inr hcomplete

/-- A top-level element has been met and its content built; this notes nothing
that the element does not lead to. -/
theorem of_content {b₀ b₁ : Builder} {name : String}
    {decl : ElementDeclaration} (hdecl : D.elements.lookup name = some decl)
    (hnotes : Notes D (targetsInElement decl.items) b₀ b₁)
    (hbefore : b₀.model.references = b.model.references)
    (hafter : b'.model.references = b₁.model.references)
    (hmet₀ : ∀ other, b.Met other → b₀.Met other)
    (hmet₀' : ∀ other, b₀.Met other → b.Met other ∨ other = name)
    (hmet₁ : ∀ other, b₁.Met other → b'.Met other)
    (hmet₁' : ∀ other, b'.Met other → b₁.Met other ∨ other = name) :
    Notes D [] b b' where
  kept other hother := by
    rw [hafter]
    exact hnotes.kept other (hbefore ▸ hother)
  reached _ hreaches := absurd hreaches not_reaches_nil
  new other hother := by
    rw [hafter] at hother
    rcases hnotes.new other hother with hold | hreaches | hparent
    · exact .inl (hbefore ▸ hold)
    · exact .inr (.inr ⟨name, decl, hdecl, hreaches⟩)
    · exact .inr (.inr hparent)
  met other hother := hmet₁ other (hnotes.met other (hmet₀ other hother))
  complete parent hparent := by
    rw [hafter]
    have hself : ∀ other, D.ReachedFrom name other →
        other ∈ b₁.model.references := by
      rintro other ⟨decl', hdecl', hreaches⟩
      cases hdecl.symm.trans hdecl'
      exact hnotes.reached other hreaches
    rcases hmet₁' parent hparent with hparent | rfl
    · rcases hnotes.complete parent hparent with hparent | hcomplete
      · rcases hmet₀' parent hparent with hparent | rfl
        · exact .inl hparent
        · exact .inr hself
      · exact .inr hcomplete
    · exact .inr hself

end Builder.Notes

open Builder (Notes)

/-- However it is run, the conversion notes where the targets lead to. -/
def NotesAll {α : Type} (D : Directory) (targets : List Target)
    (x : Conversion α) : Prop :=
  ∀ b a b', x.run b = .ok (a, b') → Notes D targets b b'

namespace NotesAll

variable {D : Directory} {α β : Type} {targets first second : List Target}

theorem of_pure (a : α) : NotesAll D [] (pure a) := by
  rintro b _ _ ⟨⟩
  exact .of_same rfl rfl

theorem of_throw (e : DeclarationError) :
    NotesAll D targets (throw e : Conversion α) := by
  rintro b _ _ ⟨⟩

theorem bind {x : Conversion α} {f : α → Conversion β}
    (hfirst : NotesAll D first x) (hnext : ∀ a, NotesAll D second (f a)) :
    NotesAll D (first ++ second) (x >>= f) := by
  intro b c b'' hrun
  obtain ⟨a, b', hx, hf⟩ := Conversion.run_bind_eq_ok_iff.mp hrun
  exact (hfirst b a b' hx).trans (hnext a b' c b'' hf)

/-- Behind the first part nothing is noted. -/
theorem bind_quiet {x : Conversion α} {f : α → Conversion β}
    (hfirst : NotesAll D first x) (hnext : ∀ a, NotesAll D [] (f a)) :
    NotesAll D first (x >>= f) :=
  List.append_nil first ▸ hfirst.bind hnext

theorem forM {γ : Type} {f : γ → Conversion Unit} {targets : γ → List Target}
    (l : List γ) (hsteps : ∀ c, NotesAll D (targets c) (f c)) :
    NotesAll D (l.flatMap targets) (l.forM f) := by
  induction l with
  | nil => exact of_pure ()
  | cons c l ih =>
      rw [List.flatMap_cons]
      exact (hsteps c).bind fun _ => ih

theorem of_except (result : Except DeclarationError α) :
    NotesAll D [] (liftM result : Conversion α) := by
  cases result with
  | ok a => exact of_pure a
  | error e => exact of_throw e

theorem of_add (d : TypeDef) : NotesAll D [] (Conversion.add d) := by
  rintro b _ _ ⟨⟩
  exact .of_same rfl rfl

theorem of_define (id : TypeId) (d : TypeDef) :
    NotesAll D [] (Conversion.define id d) := by
  rintro b _ _ ⟨⟩
  exact .of_same rfl rfl

theorem of_builtin (name : String) :
    NotesAll D [] (Conversion.builtin name) := by
  intro b id b' hrun
  rw [Conversion.run_builtin] at hrun
  split at hrun
  · rename_i found model hbuiltin
    cases hrun
    obtain ⟨hreferences, -⟩ := Model.builtin?_induction
      (motive := fun m => m.references = b.model.references) rfl
      (fun _ _ _ _ _ _ hm => hm) hbuiltin
    exact .of_same hreferences rfl
  · cases hrun

theorem of_type (name : String) : NotesAll D [] (Conversion.type D name) := by
  rw [Conversion.type]
  split
  · exact of_pure _
  · exact of_builtin name

theorem of_refer (name : String) :
    NotesAll D [.element name] (Conversion.refer name) := by
  intro b _ b' hrun
  rw [Conversion.run_refer] at hrun
  cases hrun
  have hreferences (other : String) :
      other ∈ (b.model.addReference name).references ↔
        other = name ∨ other ∈ b.model.references := mem_addReference
  exact
    { kept := fun other hother => (hreferences other).mpr (.inr hother)
      reached := fun other hother =>
        (hreferences other).mpr (.inl (reaches_element_iff.mp hother))
      new := fun other hother =>
        ((hreferences other).mp hother).elim
          (fun hname => .inr (.inl (reaches_element_iff.mpr hname))) .inl
      met := fun _ => id
      complete := fun _ => .inl }

end NotesAll

section Simple

variable {D : Directory}

theorem notes_orString (found : Option TypeDef) :
    NotesAll D [] (orString found) := by
  cases found with
  | some d => exact .of_pure d
  | none => exact (NotesAll.of_builtin "string").bind fun _ => .of_pure _

mutual

theorem notes_simpleItems (items : List SimpleItem) (found : Option TypeDef) :
    NotesAll D [] (simpleItems D items found) := by
  cases items with
  | nil =>
      rw [simpleItems]
      exact .of_pure found
  | cons item rest =>
      rw [simpleItems]
      exact (notes_simpleItem item).bind fun _ => notes_simpleItems rest _

theorem notes_simpleItem (item : SimpleItem) :
    NotesAll D [] (simpleItem D item) := by
  cases item with
  | restriction base items =>
      rw [simpleItem]
      have hbase : NotesAll D [] (base.mapM (Conversion.type D)) := by
        cases base with
        | none => exact .of_pure none
        | some name => exact (NotesAll.of_type name).bind fun _ => .of_pure _
      exact hbase.bind fun _ => notes_restrictionItems items _ _
  | list =>
      rw [simpleItem]
      exact .of_throw _
  | union =>
      rw [simpleItem]
      exact .of_throw _

theorem notes_restrictionItems (items : List RestrictionItem)
    (base : Option TypeId) (facets : Facets) :
    NotesAll D [] (restrictionItems D items base facets) := by
  cases items with
  | nil =>
      cases base with
      | none =>
          rw [restrictionItems]
          exact .of_throw _
      | some base =>
          rw [restrictionItems]
          exact .of_pure _
  | cons item rest =>
      rw [restrictionItems]
      exact (notes_restrictionItem item facets).bind fun _ =>
        notes_restrictionItems rest _ _

theorem notes_restrictionItem (item : RestrictionItem) (facets : Facets) :
    NotesAll D [] (restrictionItem D item facets) := by
  cases item with
  | simpleType items =>
      rw [restrictionItem]
      exact (notes_simpleItems items none).bind fun found =>
        (notes_orString found).bind fun d =>
          (NotesAll.of_add d).bind fun _ => .of_pure _
  | facet facet =>
      rw [restrictionItem]
      exact (NotesAll.of_except _).bind fun _ => .of_pure _

end

theorem notes_simpleType (items : List SimpleItem) :
    NotesAll D [] (simpleType D items) := by
  rw [simpleType]
  exact (notes_simpleItems items none).bind notes_orString

theorem notes_attributeDecl (decl : Attribute) :
    NotesAll D [] (attributeDecl D decl) := by
  have htype : NotesAll D [] (attributeType D decl) := by
    rw [attributeType]
    split
    · exact .of_type _
    · exact (notes_simpleType _).bind fun d => .of_add d
    · exact .of_builtin _
  rw [attributeDecl]
  split
  · exact .of_throw _
  · split
    · exact .of_throw _
    · exact htype.bind fun _ => .of_pure _

end Simple

section Content

variable {D : Directory} {references : References} {expanding : List String}

/-- Following a reference notes where it leads to; a reference to an element
notes only what comes with the elements that are met. -/
structure Noting (D : Directory) (references : References)
    (expanding : List String) : Prop where
  group : ∀ name,
    NotesAll D [.group name] (references.group expanding name)
  element : ∀ name, NotesAll D [] (references.element expanding name)

theorem notes_groupReference (hnoting : Noting D references expanding)
    (target : Option String) (occurs : Occurs) :
    NotesAll D (target.map Target.group).toList
      (groupReference references expanding target occurs) := by
  rw [groupReference.eq_def]
  cases target with
  | none => exact .of_throw _
  | some name => exact (hnoting.group name).bind_quiet fun _ => .of_pure _

theorem notes_ownType (element : String) (inline : Option TypeDef)
    (named : Option String) :
    NotesAll D [] (ownType D element inline named) := by
  rw [ownType.eq_def]
  split
  · exact .of_throw _
  · exact .of_add _
  · exact .of_type _
  · exact .of_builtin _

mutual

theorem notes_groupItems (hnoting : Noting D references expanding)
    (items : List GroupItem) :
    NotesAll D (targetsInGroup items)
      (groupItems D references expanding items) := by
  cases items with
  | nil =>
      rw [groupItems, targetsInGroup]
      exact .of_pure []
  | cons item rest =>
      rw [groupItems, targetsInGroup]
      exact (notes_groupItem hnoting item).bind fun _ =>
        (notes_groupItems hnoting rest).bind_quiet fun _ => .of_pure _

theorem notes_groupItem (hnoting : Noting D references expanding)
    (item : GroupItem) :
    NotesAll D (targetsInGroupItem item)
      (groupItem D references expanding item) := by
  cases item with
  | element head items =>
      rw [groupItem, targetsInGroupItem]
      cases head.reference with
      | some name =>
          exact (NotesAll.of_except _).bind fun _ =>
            (hnoting.element name).bind fun _ =>
              (NotesAll.of_refer name).bind_quiet fun _ => .of_pure _
      | none =>
          cases head.name with
          | none => exact .of_throw _
          | some name =>
              exact (NotesAll.of_except _).bind fun _ =>
                (notes_elementItems hnoting items none).bind_quiet
                  fun inline => (notes_ownType name inline head.type).bind
                    fun _ => .of_pure _
  | reference target occurs =>
      rw [groupItem, targetsInGroupItem]
      exact (notes_groupReference hnoting target occurs).bind_quiet
        fun _ => .of_pure _
  | group order occurs items =>
      rw [groupItem, targetsInGroupItem]
      exact (notes_groupItems hnoting items).bind_quiet fun _ => .of_pure _
  | any occurs =>
      rw [groupItem, targetsInGroupItem]
      exact .of_pure _

theorem notes_elementItems (hnoting : Noting D references expanding)
    (items : List ElementItem) (found : Option TypeDef) :
    NotesAll D (targetsInElement items)
      (elementItems D references expanding items found) := by
  cases items with
  | nil =>
      rw [elementItems, targetsInElement]
      exact .of_pure found
  | cons item rest =>
      rw [elementItems, targetsInElement]
      exact (notes_elementItem hnoting item).bind fun _ =>
        notes_elementItems hnoting rest _

theorem notes_elementItem (hnoting : Noting D references expanding)
    (item : ElementItem) :
    NotesAll D (targetsInElementItem item)
      (elementItem D references expanding item) := by
  cases item with
  | simpleType items =>
      rw [elementItem, targetsInElementItem]
      exact notes_simpleType items
  | complexType items =>
      rw [elementItem, targetsInElementItem]
      exact (notes_complexItems hnoting items {}).bind_quiet fun _ => .of_pure _
  | alternative =>
      rw [elementItem]
      exact .of_throw _

theorem notes_complexItems (hnoting : Noting D references expanding)
    (items : List ComplexItem) (type : ComplexType) :
    NotesAll D (targetsInType items)
      (complexItems D references expanding items type) := by
  cases items with
  | nil =>
      rw [complexItems, targetsInType]
      exact .of_pure type
  | cons item rest =>
      rw [complexItems, targetsInType]
      exact (notes_complexItem hnoting item type).bind fun _ =>
        notes_complexItems hnoting rest _

theorem notes_complexItem (hnoting : Noting D references expanding)
    (item : ComplexItem) (type : ComplexType) :
    NotesAll D (targetsInTypeItem item)
      (complexItem D references expanding item type) := by
  cases item with
  | group order occurs items =>
      rw [complexItem, targetsInTypeItem]
      exact (notes_groupItems hnoting items).bind_quiet fun _ => .of_pure _
  | reference target occurs =>
      rw [complexItem, targetsInTypeItem]
      exact (notes_groupReference hnoting target occurs).bind_quiet
        fun _ => .of_pure _
  | attributeUse decl =>
      rw [complexItem, targetsInTypeItem]
      exact (notes_attributeDecl decl).bind_quiet fun _ => .of_pure _
  | unsupported construct =>
      rw [complexItem]
      exact .of_throw _

end

theorem notes_namedGroup (hnoting : ∀ expanding, Noting D references expanding)
    (name : String) :
    NotesAll D [.group name] (namedGroup D references expanding name) := by
  rw [namedGroup]
  split
  · exact .of_throw _
  · cases hgroup : D.groups.lookup name with
    | none => exact .of_throw _
    | some items =>
        dsimp only
        rw [groupContent.eq_def]
        split
        · rename_i order occurs items rest
          have hitems : NotesAll D (targetsInGroup items) _ :=
            (notes_groupItems (hnoting (name :: expanding)) items).bind_quiet
              fun children => .of_pure (⟨order, occurs, children⟩ : Group)
          intro b g b' hrun
          obtain ⟨hkept, hreached, hnew, hmet, hcomplete⟩ := hitems b g b' hrun
          exact ⟨hkept, fun other hother =>
            hreached other ((reaches_group_iff hgroup).mp hother),
            fun other hother => (hnew other hother).imp_right
              (Or.imp_left (reaches_group_iff hgroup).mpr), hmet, hcomplete⟩
        · exact .of_throw _

theorem met_note_iff {b : Builder} {name other : String} {id : TypeId} :
    Builder.Met { b with elementTypes := (name, id) :: b.elementTypes } other ↔
      b.Met other ∨ other = name := by
  by_cases hname : other = name
  · subst hname
    simp [Builder.Met]
  · simp [Builder.Met, List.lookup_cons, beq_false_of_ne hname, hname]

section Elements

variable (hnoting : Noting D references expanding) {name : String}
  {decl : ElementDeclaration}

include hnoting

variable {b b' : Builder} {id : TypeId}

theorem notes_namedType (hdecl : D.elements.lookup name = some decl)
    {type : String}
    (hrun : (namedType D references expanding name type decl.items).run b =
      .ok (id, b')) : Notes D [] b b' ∧ b'.Met name := by
  obtain ⟨inline, b₁, hinline, hrun⟩ := Conversion.run_bind_eq_ok_iff.mp hrun
  have hitems := notes_elementItems hnoting decl.items none b inline b₁ hinline
  cases inline with
  | some d => cases hrun
  | none =>
      obtain ⟨_, b₂, htype, hrun⟩ := Conversion.run_bind_eq_ok_iff.mp hrun
      have hboth := hitems.trans (NotesAll.of_type type b₁ _ b₂ htype)
      rw [List.append_nil] at hboth
      cases hrun
      exact ⟨.of_content hdecl hboth rfl rfl (fun _ hmet => hmet)
        (fun _ => .inl) (fun _ hmet => met_note_iff.mpr (.inl hmet))
        (fun _ hmet => met_note_iff.mp hmet), met_note_iff.mpr (.inr rfl)⟩

theorem notes_inlineType (hdecl : D.elements.lookup name = some decl)
    (hrun : (inlineType D references expanding name decl.items).run b =
      .ok (id, b')) : Notes D [] b b' ∧ b'.Met name := by
  rw [run_inlineType, run_filledType_eq_ok_iff] at hrun
  obtain ⟨found, b₁, hitems, hfill, -⟩ := hrun
  have hcontent := notes_elementItems hnoting decl.items none _ found b₁ hitems
  have hdefine : Notes D [] b₁ b' := by
    cases found with
    | none =>
        cases hfill
        exact .of_same rfl rfl
    | some d => exact NotesAll.of_define _ d b₁ () b' hfill
  have hboth := hcontent.trans hdefine
  rw [List.append_nil] at hboth
  exact ⟨.of_content hdecl hboth rfl rfl
    (fun _ hmet => met_note_iff.mpr (.inl hmet))
    (fun _ hmet => met_note_iff.mp hmet) (fun _ hmet => hmet) (fun _ => .inl),
    hboth.met name (met_note_iff.mpr (.inr rfl))⟩

/-- A top-level element is built as it is declared first. -/
theorem notes_topLevelType
    (hdecl : b.elementTypes.lookup name = none →
      D.elements.lookup name = some decl)
    (hrun : (topLevelType D references expanding name decl).run b =
      .ok (id, b')) : Notes D [] b b' ∧ b'.Met name := by
  cases hlookup : b.elementTypes.lookup name with
  | some found =>
      rw [run_topLevelType_of_some _ _ _ hlookup] at hrun
      cases hrun
      exact ⟨.of_same rfl rfl, Option.isSome_of_eq_some hlookup⟩
  | none =>
      rw [run_topLevelType_of_none _ _ _ hlookup] at hrun
      split at hrun
      · exact notes_namedType hnoting (hdecl hlookup) hrun
      · exact notes_inlineType hnoting (hdecl hlookup) hrun

end Elements

/-- However many references are followed into one another. -/
theorem noting_within (depth : Nat) (expanding : List String) :
    Noting D (References.within D depth) expanding := by
  induction depth generalizing expanding with
  | zero => exact ⟨fun _ => .of_throw _, fun _ => .of_throw _⟩
  | succ depth ih =>
      constructor
      · exact notes_namedGroup ih
      · intro name
        change NotesAll D []
          (namedElement D (References.within D depth) expanding name)
        rw [namedElement]
        cases hdecl : D.elements.lookup name with
        | none => exact .of_throw _
        | some decl =>
            exact fun b id b' hrun =>
              (notes_topLevelType (ih expanding) (fun _ => hdecl) hrun).1

/-- Top-level elements are added in the order in which they are declared. -/
theorem notes_addElements (hnoting : Noting D references [])
    {done entries : List (String × ElementDeclaration)}
    (hdirectory : D.elements = done ++ entries) {b b' : Builder}
    (hdone : ∀ entry ∈ done, b.Met entry.1)
    (hrun : (entries.forM (addElement D references [])).run b = .ok ((), b')) :
    Notes D [] b b' ∧ ∀ entry ∈ D.elements, b'.Met entry.1 := by
  induction entries generalizing done b with
  | nil =>
      cases hrun
      rw [List.append_nil] at hdirectory
      exact ⟨.of_same rfl rfl, hdirectory ▸ hdone⟩
  | cons entry entries ih =>
      obtain ⟨name, decl⟩ := entry
      obtain ⟨_, b₃, hfirst, hrun⟩ := Conversion.run_bind_eq_ok_iff.mp hrun
      obtain ⟨_, b₁, hhead, hfirst⟩ := Conversion.run_bind_eq_ok_iff.mp hfirst
      obtain ⟨id, b₂, htype, hfirst⟩ := Conversion.run_bind_eq_ok_iff.mp hfirst
      have hnotes₁ := NotesAll.of_except (D := D) _ b _ b₁ hhead
      obtain ⟨hnotes₂, hmet⟩ := notes_topLevelType hnoting (fun hnone => by
        rw [hdirectory]
        exact lookup_append_of_none
          (fun entry hentry => hnotes₁.met _ (hdone entry hentry)) hnone) htype
      have hnotes₃ : Notes D [] b₂ b₃ := by
        cases hfirst
        exact .of_same rfl rfl
      have hnotes := (hnotes₁.trans hnotes₂).trans hnotes₃
      have hdone' : ∀ entry ∈ done ++ [(name, decl)], b₃.Met entry.1 := by
        intro entry hentry
        rcases List.mem_append.mp hentry with hentry | hentry
        · exact hnotes.met _ (hdone entry hentry)
        · rw [List.mem_singleton.mp hentry]
          exact hnotes₃.met name hmet
      obtain ⟨hnotes', hall⟩ := ih (by simpa using hdirectory) hdone' hrun
      exact ⟨hnotes.trans hnotes', hall⟩

end Content

/-- A model that is built notes the top-level elements that named complex types
and top-level elements lead to, and no others. -/
theorem mem_references_build {declarations : List TopLevel} {c : Collection}
    (hholds : c.Holds declarations) {depth : Nat} {b : Builder}
    (hrun : (c.build (References.within c.directory depth)).run
      { model := c.model } = .ok ((), b)) (name : String) :
    name ∈ b.model.references ↔
      (∃ t ∈ c.complexTypes, c.directory.Reaches (targetsInType t.2) name) ∨
        ∃ parent, c.directory.ReachedFrom parent name := by
  obtain ⟨_, b₁, hsimple, hrun⟩ := Conversion.run_bind_eq_ok_iff.mp hrun
  obtain ⟨_, b₂, hcomplex, helements⟩ := Conversion.run_bind_eq_ok_iff.mp hrun
  have hnotes₁ := NotesAll.forM c.simpleTypes
    (fun t => (notes_simpleType t.2).bind fun d =>
      .of_define t.1 d) _ _ _ hsimple
  have hnotes₂ := NotesAll.forM c.complexTypes
    (fun t => (notes_complexItems (noting_within depth []) t.2 {}).bind_quiet
      fun type => .of_define t.1 (.complex type)) _ _ _ hcomplex
  obtain ⟨hnotes₃, hall⟩ := notes_addElements (noting_within depth [])
    (List.nil_append _).symm nofun helements
  have hnotes := (hnotes₁.trans hnotes₂).trans hnotes₃
  constructor
  · intro hname
    rcases hnotes.new name hname with hold | hreaches | hparent
    · rw [hholds.model] at hold
      cases hold
    · rcases reaches_append.mp hreaches with hreaches | hnone
      · rcases reaches_append.mp hreaches with hsimple | hcomplex
        · obtain ⟨_, -, hnone⟩ := reaches_flatMap.mp hsimple
          exact absurd hnone not_reaches_nil
        · exact .inl (reaches_flatMap.mp hcomplex)
      · exact absurd hnone not_reaches_nil
    · exact .inr hparent
  · rintro (hcomplex | ⟨parent, hreached⟩)
    · exact hnotes₃.kept name (hnotes₂.reached name
        (reaches_flatMap.mpr hcomplex))
    · have ⟨decl, hdecl, _⟩ := hreached
      have hmet := hall _ (mem_of_lookup hdecl)
      exact (hnotes.complete parent hmet).resolve_left nofun name hreached

end Declaration

end Specimen
