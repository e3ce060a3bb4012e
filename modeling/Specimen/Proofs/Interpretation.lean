/-
Conversion builds what declarations mean.  While a model is built, types that
have their numbers but not their definitions are pending; all that is known of
the other ones is kept by every later step.
-/
import Specimen.Proofs.BuiltinTypes
import Specimen.Proofs.ConversionRuns
import Specimen.Proofs.Meaning

namespace Specimen

namespace Declaration

/-- The types that have numbers and no definitions yet: named ones, and inline
ones of top-level elements. -/
structure Pending where
  types : List TypeId := []
  elements : List (String × TypeId) := []

def Pending.Has (pending : Pending) (id : TypeId) : Prop :=
  id ∈ pending.types ∨ ∃ name, (name, id) ∈ pending.elements

namespace Builder

/-- What names stand for in the model as far as it is built. -/
def meaning (b : Builder) (directory : Directory) (pending : Pending) :
    Meaning where
  type name id :=
    match directory.types.lookup name with
    | some declared => id = declared
    | none => b.model.builtins.lookup name = some id
  builtin name id := b.model.builtins.lookup name = some id
  element name id := b.elementTypes.lookup name = some id
  group name := directory.groups.lookup name
  definition id d := b.model.types[id]? = some d ∧ ¬ pending.Has id

/-- Nothing is lost from one builder to the other. -/
structure Extends (b b' : Builder) : Prop where
  types : b.model.types <+: b'.model.types
  builtins : ∀ name id, b.model.builtins.lookup name = some id →
    b'.model.builtins.lookup name = some id
  elementTypes : ∀ name id, b.elementTypes.lookup name = some id →
    b'.elementTypes.lookup name = some id
  elements : b'.model.elements = b.model.elements

/-- Builtin types and the types of elements are what they have to be, unless
they are pending. -/
structure Sound (directory : Directory) (pending : Pending) (b : Builder) :
    Prop where
  pending_lt : ∀ id, pending.Has id → id < b.model.types.length
  builtin : ∀ name id, b.model.builtins.lookup name = some id →
    Model.BuiltinAt (b.meaning directory pending).definition name id
  element : ∀ name id, b.elementTypes.lookup name = some id →
    ∃ decl, directory.elements.lookup name = some decl ∧
      (decl.Means (b.meaning directory pending) id ∨
        decl.head.type = none ∧ (name, id) ∈ pending.elements)

variable {directory : Directory} {pending : Pending} {b b' b'' : Builder}

theorem Extends.refl (b : Builder) : b.Extends b :=
  ⟨List.prefix_rfl, fun _ _ => id, fun _ _ => id, rfl⟩

theorem Extends.trans (hfirst : b.Extends b') (hsecond : b'.Extends b'') :
    b.Extends b'' where
  types := hfirst.types.trans hsecond.types
  builtins name id hlookup :=
    hsecond.builtins name id (hfirst.builtins name id hlookup)
  elementTypes name id hlookup :=
    hsecond.elementTypes name id (hfirst.elementTypes name id hlookup)
  elements := hsecond.elements.trans hfirst.elements

/-- The meaning of names grows if nothing is lost that is known. -/
theorem meaning_le {pending' : Pending}
    (htypes : ∀ id d, b.model.types[id]? = some d → ¬ pending.Has id →
      b'.model.types[id]? = some d ∧ ¬ pending'.Has id)
    (hbuiltins : ∀ name id, b.model.builtins.lookup name = some id →
      b'.model.builtins.lookup name = some id)
    (helements : ∀ name id, b.elementTypes.lookup name = some id →
      b'.elementTypes.lookup name = some id) :
    (b.meaning directory pending).Le (b'.meaning directory pending') where
  type name id htype := by
    unfold meaning at htype ⊢
    dsimp only at htype ⊢
    split
    · rename_i declared hlookup
      simpa only [hlookup] using htype
    · rename_i hlookup
      simp only [hlookup] at htype
      exact hbuiltins name id htype
  builtin := hbuiltins
  element := helements
  group := rfl
  definition id d hdefinition := htypes id d hdefinition.1 hdefinition.2

theorem Extends.meaning_le (hextends : b.Extends b') :
    (b.meaning directory pending).Le (b'.meaning directory pending) :=
  Builder.meaning_le
    (fun _ _ hget hpending =>
      ⟨getElem?_of_le hextends.types hget, hpending⟩)
    hextends.builtins hextends.elementTypes

/-- What is sound stays so where nothing that is known is lost and what is new
is right. -/
theorem Sound.of_le {pending' : Pending} (hsound : b.Sound directory pending)
    (hle : (b.meaning directory pending).Le (b'.meaning directory pending'))
    (hpending : ∀ id, pending'.Has id → id < b'.model.types.length)
    (hbuiltin : ∀ name id, b'.model.builtins.lookup name = some id →
      b.model.builtins.lookup name = some id ∨
        Model.BuiltinAt (b'.meaning directory pending').definition name id)
    (helement : ∀ name id, b'.elementTypes.lookup name = some id →
      (b.elementTypes.lookup name = some id ∧
        ((name, id) ∈ pending.elements → (name, id) ∈ pending'.elements)) ∨
      ∃ decl, directory.elements.lookup name = some decl ∧
        (decl.Means (b'.meaning directory pending') id ∨
          decl.head.type = none ∧ (name, id) ∈ pending'.elements)) :
    b'.Sound directory pending' where
  pending_lt := hpending
  builtin name id hlookup := by
    rcases hbuiltin name id hlookup with hold | hnew
    · exact (hsound.builtin name id hold).mono hle.definition
    · exact hnew
  element name id hlookup := by
    rcases helement name id hlookup with ⟨hold, hkept⟩ | hnew
    · obtain ⟨decl, hdecl, hmeans | ⟨htype, hin⟩⟩ :=
        hsound.element name id hold
      · exact ⟨decl, hdecl, .inl (hmeans.mono hle)⟩
      · exact ⟨decl, hdecl, .inr ⟨htype, hkept hin⟩⟩
    · exact hnew

theorem Sound.of_extends (hsound : b.Sound directory pending)
    (hextends : b.Extends b')
    (hbuiltin : ∀ name id, b'.model.builtins.lookup name = some id →
      b.model.builtins.lookup name = some id ∨
        Model.BuiltinAt (b'.meaning directory pending).definition name id)
    (helements : b'.elementTypes = b.elementTypes) :
    b'.Sound directory pending :=
  hsound.of_le hextends.meaning_le
    (fun id hpending => Nat.lt_of_lt_of_le (hsound.pending_lt id hpending)
      hextends.types.length_le)
    hbuiltin fun _ _ hlookup => .inl ⟨helements ▸ hlookup, id⟩

/-- A number that is given away now is not pending. -/
theorem Sound.not_pending (hsound : b.Sound directory pending) :
    ¬ pending.Has b.model.types.length :=
  fun hpending => Nat.lt_irrefl _ (hsound.pending_lt _ hpending)

theorem extends_intern {name : String}
    (hnew : b.model.builtins.lookup name = none) (type : TypeDef) :
    b.Extends { b with model := b.model.intern name type } where
  types := List.prefix_append _ _
  builtins _ _ hlookup := lookup_cons_of_lookup hnew hlookup
  elementTypes _ _ hlookup := hlookup
  elements := rfl

/-- The definition that a builtin type gets is the right one. -/
theorem Sound.intern (hsound : b.Sound directory pending) {name : String}
    {type : TypeDef} (hnew : b.model.builtins.lookup name = none)
    (htype : b.model.Interns name type) :
    Sound directory pending { b with model := b.model.intern name type } := by
  have hextends := extends_intern hnew type
  refine hsound.of_extends hextends (fun other id hlookup => ?_) rfl
  by_cases hname : other = name
  · subst hname
    rw [Model.lookup_intern_self] at hlookup
    cases hlookup
    have hself : (meaning { b with model := b.model.intern other type }
        directory pending).definition b.model.types.length type :=
      ⟨by simp [Model.intern], hsound.not_pending⟩
    exact .inr (htype.builtinAt hself fun another base hlookup =>
      (hsound.builtin another base hlookup).mono hextends.meaning_le.definition)
  · left
    simpa only [Model.intern, List.lookup_cons, beq_false_of_ne hname] using
      hlookup

end Builder

/-- If the builder is sound the step leaves a sound one that extends it, and
gives a result as described. -/
def Gives {α : Type} (directory : Directory) (pending : Pending) (b : Builder)
    (described : Builder → α → Prop) (x : Conversion α) : Prop :=
  b.Sound directory pending → ∀ a b', x.run b = .ok (a, b') →
    b.Extends b' ∧ b'.Sound directory pending ∧ described b' a

namespace Gives

variable {directory : Directory} {pending : Pending} {b : Builder}
  {α β : Type} {described : Builder → α → Prop}
  {described' : Builder → β → Prop}

theorem of_pure {a : α} (hdescribed : described b a) :
    Gives directory pending b described (pure a) := by
  rintro hsound _ _ ⟨⟩
  exact ⟨.refl b, hsound, hdescribed⟩

theorem of_throw {e : DeclarationError} :
    Gives directory pending b described (throw e) := by
  rintro _ _ _ ⟨⟩

theorem bind {x : Conversion α} {f : α → Conversion β}
    (hfirst : Gives directory pending b described x)
    (hnext : ∀ b' a, b.Extends b' → described b' a →
      Gives directory pending b' described' (f a)) :
    Gives directory pending b described' (x >>= f) := by
  intro hsound c b'' hrun
  obtain ⟨a, b', hx, hf⟩ := Conversion.run_bind_eq_ok_iff.mp hrun
  obtain ⟨hextends, hsound', hdescribed⟩ := hfirst hsound a b' hx
  obtain ⟨hextends', hsound'', hdescribed'⟩ :=
    hnext b' a hextends hdescribed hsound' c b'' hf
  exact ⟨hextends.trans hextends', hsound'', hdescribed'⟩

theorem mono {described described' : Builder → α → Prop} {x : Conversion α}
    (hgives : Gives directory pending b described x)
    (hle : ∀ b' a, b.Extends b' → described b' a → described' b' a) :
    Gives directory pending b described' x := by
  intro hsound a b' hrun
  obtain ⟨hextends, hsound', hdescribed⟩ := hgives hsound a b' hrun
  exact ⟨hextends, hsound', hle b' a hextends hdescribed⟩

theorem of_except {result : Except DeclarationError α} :
    Gives directory pending b (fun _ a => result = .ok a)
      (liftM result : Conversion α) := by
  cases result with
  | ok a => exact of_pure rfl
  | error e => exact of_throw

theorem of_add (d : TypeDef) :
    Gives directory pending b
      (fun b' id => (b'.meaning directory pending).definition id d)
      (Conversion.add d) := by
  intro hsound id b' hrun
  rw [Conversion.run_add] at hrun
  cases hrun
  have hextends : b.Extends
      { b with model := { b.model with types := b.model.types ++ [d] } } :=
    ⟨List.prefix_append _ _, fun _ _ => id, fun _ _ => id, rfl⟩
  exact ⟨hextends, hsound.of_extends hextends (fun _ _ => .inl) rfl,
    by simp, hsound.not_pending⟩

theorem of_refer (name : String) :
    Gives directory pending b (fun _ _ => True) (Conversion.refer name) := by
  intro hsound _ b' hrun
  rw [Conversion.run_refer] at hrun
  cases hrun
  have hmodel : b.model.addReference name =
      { b.model with
        references := (b.model.addReference name).references } := by
    unfold Model.addReference
    split <;> rfl
  rw [hmodel]
  have hextends : b.Extends { b with model := { b.model with
      references := (b.model.addReference name).references } } :=
    ⟨List.prefix_rfl, fun _ _ => id, fun _ _ => id, rfl⟩
  exact ⟨hextends, hsound.of_extends hextends (fun _ _ => .inl) rfl, trivial⟩

theorem of_builtin (name : String) :
    Gives directory pending b
      (fun b' id => (b'.meaning directory pending).builtin name id)
      (Conversion.builtin name) := by
  intro hsound id b' hrun
  rw [Conversion.run_builtin] at hrun
  split at hrun
  · rename_i found model hbuiltin
    cases hrun
    obtain ⟨⟨hextends, hsound'⟩, hlookup⟩ := Model.builtin?_induction
      (motive := fun m => b.Extends { b with model := m } ∧
        Builder.Sound directory pending { b with model := m })
      ⟨.refl b, hsound⟩
      (fun m other type _ hnew htype hm =>
        ⟨hm.1.trans (Builder.extends_intern hnew type),
          hm.2.intern hnew htype⟩)
      hbuiltin
    exact ⟨hextends, hsound', hlookup⟩
  · cases hrun

theorem of_type (name : String) :
    Gives directory pending b
      (fun b' id => (b'.meaning directory pending).type name id)
      (Conversion.type directory name) := by
  unfold Conversion.type
  cases hlookup : directory.types.lookup name with
  | some declared => exact of_pure (by simp [Builder.meaning, hlookup])
  | none =>
      apply (of_builtin name).mono
      intro b' id _ hbuiltin
      simpa [Builder.meaning, hlookup] using hbuiltin

end Gives

section Simple

variable {directory : Directory} {pending : Pending}

theorem gives_orString {b : Builder} (found : Option TypeDef) :
    Gives directory pending b
      (fun b' d => OrString (b'.meaning directory pending) found d)
      (orString found) := by
  cases found with
  | some d => exact .of_pure (.found d)
  | none =>
      apply (Gives.of_builtin "string").bind
      intro b' id _ hstring
      exact .of_pure (.string hstring)

mutual

theorem gives_simpleItems (items : List SimpleItem) (b : Builder)
    (found : Option TypeDef) :
    Gives directory pending b
      (fun b' result =>
        SimpleItem.AllMean (b'.meaning directory pending) items found result)
      (simpleItems directory items found) := by
  cases items with
  | nil =>
      rw [simpleItems]
      exact .of_pure (.nil found)
  | cons item rest =>
      rw [simpleItems]
      apply (gives_simpleItem item b).bind
      intro b₁ d _ hitem
      apply (gives_simpleItems rest b₁ (some d)).mono
      exact fun b₂ result hextends hrest =>
        .cons found (hitem.mono hextends.meaning_le) hrest

theorem gives_simpleItem (item : SimpleItem) (b : Builder) :
    Gives directory pending b
      (fun b' d => item.Means (b'.meaning directory pending) d)
      (simpleItem directory item) := by
  cases item with
  | restriction base items =>
      rw [simpleItem]
      cases base with
      | none =>
          apply (gives_restrictionItems items b none Facets.none).mono
          exact fun b' d _ hitems => .inline hitems
      | some name =>
          change Gives directory pending b _ ((do
            return some (← Conversion.type directory name)) >>= fun named =>
              restrictionItems directory items named Facets.none)
          rw [bind_assoc]
          apply (Gives.of_type name).bind
          intro b₁ id _ hname
          rw [pure_bind]
          apply (gives_restrictionItems items b₁ (some id) Facets.none).mono
          exact fun b₂ d hextends hitems =>
            .named (hextends.meaning_le.type _ _ hname) hitems
  | list =>
      rw [simpleItem]
      exact .of_throw
  | union =>
      rw [simpleItem]
      exact .of_throw

theorem gives_restrictionItems (items : List RestrictionItem) (b : Builder)
    (base : Option TypeId) (facets : Facets) :
    Gives directory pending b
      (fun b' d => RestrictionItem.AllMean (b'.meaning directory pending) items
        base facets d)
      (restrictionItems directory items base facets) := by
  cases items with
  | nil =>
      cases base with
      | none =>
          rw [restrictionItems]
          exact .of_throw
      | some base =>
          rw [restrictionItems]
          exact .of_pure (.nil base facets)
  | cons item rest =>
      rw [restrictionItems]
      apply (gives_restrictionItem item b facets).bind
      rintro b₁ ⟨inline, facets'⟩ _ hitem
      apply (gives_restrictionItems rest b₁ (inline.or base) facets').mono
      exact fun b₂ d hextends hrest =>
        .cons base (hitem.mono hextends.meaning_le) hrest

theorem gives_restrictionItem (item : RestrictionItem) (b : Builder)
    (facets : Facets) :
    Gives directory pending b
      (fun b' result => item.Means (b'.meaning directory pending) facets
        result.1 result.2)
      (restrictionItem directory item facets) := by
  cases item with
  | simpleType items =>
      rw [restrictionItem]
      apply (gives_simpleItems items b none).bind
      intro b₁ found _ hitems
      apply (gives_orString found).bind
      intro b₂ d hextends₂ hfound
      apply (Gives.of_add d).bind
      intro b₃ id hextends₃ hdefinition
      exact .of_pure (.simpleType facets
        (hitems.mono (hextends₂.trans hextends₃).meaning_le)
        (hfound.mono hextends₃.meaning_le) hdefinition)
  | facet facet =>
      rw [restrictionItem]
      apply Gives.of_except.bind
      intro b₁ facets' _ hfacet
      exact .of_pure (.facet hfacet)

end

theorem gives_simpleType (items : List SimpleItem) (b : Builder) :
    Gives directory pending b
      (fun b' d => SimpleItem.Define (b'.meaning directory pending) items d)
      (simpleType directory items) := by
  unfold simpleType
  apply (gives_simpleItems items b none).bind
  intro b₁ found _ hitems
  apply (gives_orString found).mono
  exact fun b₂ d hextends hfound =>
    ⟨hitems.mono hextends.meaning_le, hfound⟩

theorem gives_attributeDecl (decl : Attribute) (b : Builder) :
    Gives directory pending b
      (fun b' a => decl.Means (b'.meaning directory pending) a)
      (attributeDecl directory decl) := by
  unfold attributeDecl
  split
  · exact .of_throw
  · cases hname : decl.name with
    | none => exact .of_throw
    | some name =>
        dsimp only
        unfold attributeType
        split
        · rename_i type htype
          apply (Gives.of_type type).bind
          intro b₁ id _ hid
          exact .of_pure (.named hname htype hid)
        · rename_i items htype hinline
          rw [bind_assoc]
          apply (gives_simpleType items b).bind
          intro b₁ d _ hitems
          apply (Gives.of_add d).bind
          intro b₂ id hextends hdefinition
          exact .of_pure (.inline hname htype hinline
            (hitems.mono hextends.meaning_le) hdefinition)
        · rename_i htype hinline
          apply (Gives.of_builtin "string").bind
          intro b₁ id _ hstring
          exact .of_pure (.string hname htype hinline hstring)

end Simple

section Content

variable {directory : Directory} {pending : Pending} {references : References}
  {expanding : List String}

/-- Following a reference gives what the name stands for. -/
structure Interprets (directory : Directory) (pending : Pending)
    (references : References) (expanding : List String) : Prop where
  group : ∀ b name, Gives directory pending b
    (fun b' g => GroupItem.Named (b'.meaning directory pending) name g)
    (references.group expanding name)
  element : ∀ b name, Gives directory pending b
    (fun b' id => (b'.meaning directory pending).element name id)
    (references.element expanding name)

theorem gives_groupReference
    (hreferences : Interprets directory pending references expanding)
    (target : Option String) (occurs : Occurs) (b : Builder) :
    Gives directory pending b
      (fun b' g => ∃ name content, target = some name ∧
        GroupItem.Named (b'.meaning directory pending) name content ∧
        g = ⟨.sequence, occurs, [.group content]⟩)
      (groupReference references expanding target occurs) := by
  unfold groupReference
  split
  · exact .of_throw
  · rename_i name
    apply (hreferences.group b name).bind
    intro b₁ content _ hcontent
    exact .of_pure ⟨name, content, rfl, hcontent, rfl⟩

theorem gives_ownType (element : String) (inline : Option TypeDef)
    (named : Option String) (b : Builder) :
    Gives directory pending b
      (fun b' id => OwnType (b'.meaning directory pending) inline named id)
      (ownType directory element inline named) := by
  unfold ownType
  split
  · exact .of_throw
  · rename_i d
    exact (Gives.of_add d).mono fun b' id _ hdefinition => .inline hdefinition
  · rename_i name
    exact (Gives.of_type name).mono fun b' id _ hname => .named hname
  · exact (Gives.of_builtin _).mono fun b' id _ hany => .anyType hany

mutual

theorem gives_groupItems
    (hreferences : Interprets directory pending references expanding)
    (items : List GroupItem) (b : Builder) :
    Gives directory pending b
      (fun b' ps => GroupItem.AllMean (b'.meaning directory pending) items ps)
      (groupItems directory references expanding items) := by
  cases items with
  | nil =>
      rw [groupItems]
      exact .of_pure .nil
  | cons item rest =>
      rw [groupItems]
      apply (gives_groupItem hreferences item b).bind
      intro b₁ p _ hitem
      apply (gives_groupItems hreferences rest b₁).bind
      intro b₂ ps hextends hrest
      exact .of_pure (.cons (hitem.mono hextends.meaning_le) hrest)

theorem gives_groupItem
    (hreferences : Interprets directory pending references expanding)
    (item : GroupItem) (b : Builder) :
    Gives directory pending b
      (fun b' p => item.Means (b'.meaning directory pending) p)
      (groupItem directory references expanding item) := by
  cases item with
  | element head items =>
      rw [groupItem]
      cases hreference : head.reference with
      | some name =>
          apply Gives.of_except.bind
          intro b₁ _ _ _
          apply (hreferences.element b₁ name).bind
          intro b₂ id _ helement
          apply (Gives.of_refer name).bind
          intro b₃ _ hextends _
          exact .of_pure (.reference items hreference
            (hextends.meaning_le.element _ _ helement))
      | none =>
          cases hname : head.name with
          | none => exact .of_throw
          | some name =>
              apply Gives.of_except.bind
              intro b₁ _ _ _
              apply (gives_elementItems hreferences items b₁ none).bind
              intro b₂ inline _ hitems
              apply (gives_ownType name inline head.type b₂).bind
              intro b₃ id hextends htype
              exact .of_pure (.element hreference hname
                (hitems.mono hextends.meaning_le) htype)
  | reference target occurs =>
      rw [groupItem]
      apply (gives_groupReference hreferences target occurs b).bind
      rintro b₁ _ _ ⟨name, content, rfl, hcontent, rfl⟩
      exact .of_pure (.named occurs hcontent)
  | group order occurs items =>
      rw [groupItem]
      apply (gives_groupItems hreferences items b).bind
      intro b₁ ps _ hitems
      exact .of_pure (.group order occurs hitems)
  | any occurs =>
      rw [groupItem]
      exact .of_pure (.any occurs)

theorem gives_elementItems
    (hreferences : Interprets directory pending references expanding)
    (items : List ElementItem) (b : Builder) (found : Option TypeDef) :
    Gives directory pending b
      (fun b' result =>
        ElementItem.AllMean (b'.meaning directory pending) items found result)
      (elementItems directory references expanding items found) := by
  cases items with
  | nil =>
      rw [elementItems]
      exact .of_pure (.nil found)
  | cons item rest =>
      rw [elementItems]
      apply (gives_elementItem hreferences item b).bind
      intro b₁ d _ hitem
      apply (gives_elementItems hreferences rest b₁ (some d)).mono
      exact fun b₂ result hextends hrest =>
        .cons found (hitem.mono hextends.meaning_le) hrest

theorem gives_elementItem
    (hreferences : Interprets directory pending references expanding)
    (item : ElementItem) (b : Builder) :
    Gives directory pending b
      (fun b' d => item.Means (b'.meaning directory pending) d)
      (elementItem directory references expanding item) := by
  cases item with
  | simpleType items =>
      rw [elementItem]
      exact (gives_simpleType items b).mono fun b' d _ hitems =>
        .simpleType hitems
  | complexType items =>
      rw [elementItem]
      apply (gives_complexItems hreferences items b {}).bind
      intro b₁ t _ hitems
      exact .of_pure (.complexType hitems)
  | alternative =>
      rw [elementItem]
      exact .of_throw

theorem gives_complexItems
    (hreferences : Interprets directory pending references expanding)
    (items : List ComplexItem) (b : Builder) (t : ComplexType) :
    Gives directory pending b
      (fun b' u =>
        ComplexItem.AllMean (b'.meaning directory pending) items t u)
      (complexItems directory references expanding items t) := by
  cases items with
  | nil =>
      rw [complexItems]
      exact .of_pure (.nil t)
  | cons item rest =>
      rw [complexItems]
      apply (gives_complexItem hreferences item b t).bind
      intro b₁ u _ hitem
      apply (gives_complexItems hreferences rest b₁ u).mono
      exact fun b₂ v hextends hrest =>
        .cons (hitem.mono hextends.meaning_le) hrest

theorem gives_complexItem
    (hreferences : Interprets directory pending references expanding)
    (item : ComplexItem) (b : Builder) (t : ComplexType) :
    Gives directory pending b
      (fun b' u => item.Means (b'.meaning directory pending) t u)
      (complexItem directory references expanding item t) := by
  cases item with
  | group order occurs items =>
      rw [complexItem]
      apply (gives_groupItems hreferences items b).bind
      intro b₁ ps _ hitems
      exact .of_pure (.group order occurs t hitems)
  | reference target occurs =>
      rw [complexItem]
      apply (gives_groupReference hreferences target occurs b).bind
      rintro b₁ _ _ ⟨name, content, rfl, hcontent, rfl⟩
      exact .of_pure (.named occurs t hcontent)
  | attributeUse decl =>
      rw [complexItem]
      apply (gives_attributeDecl decl b).bind
      intro b₁ a _ hdecl
      exact .of_pure (.attributeUse t hdecl)
  | unsupported construct =>
      rw [complexItem]
      exact .of_throw

end

theorem gives_groupContent
    (hreferences : Interprets directory pending references expanding)
    (name : String) (items : List GroupItem)
    (hgroup : directory.groups.lookup name = some items) (b : Builder) :
    Gives directory pending b
      (fun b' g => GroupItem.Named (b'.meaning directory pending) name g)
      (groupContent directory references expanding name items) := by
  unfold groupContent
  split
  · rename_i order occurs items rest
    apply (gives_groupItems hreferences items b).bind
    intro b₁ ps _ hitems
    exact .of_pure (.intro hgroup hitems)
  · exact .of_throw

/-- A second definition of the inline type of an element would not be missed. -/
theorem items_eq_nil_of_means {M : Meaning} {items : List ElementItem}
    (hitems : ElementItem.AllMean M items none none) : items = [] := by
  have hsome {items : List ElementItem} {d : TypeDef} :
      ¬ ElementItem.AllMean M items (some d) none := by
    intro hmean
    induction items generalizing d with
    | nil => cases hmean
    | cons item rest ih =>
        cases hmean with
        | cons _ _ hrest => exact ih hrest
  cases hitems with
  | nil => rfl
  | cons _ _ hrest => exact absurd hrest hsome

theorem gives_namedType
    (hreferences : Interprets directory pending references expanding)
    {name type : String} {decl : ElementDeclaration}
    (hdecl : directory.elements.lookup name = some decl)
    (htype : decl.head.type = some type) {b : Builder}
    (hnew : b.elementTypes.lookup name = none) :
    Gives directory pending b
      (fun b' id => (b'.meaning directory pending).element name id)
      (namedType directory references expanding name type decl.items) := by
  intro hsound id b₃ hrun
  obtain ⟨inline, b₁, hinline, hrun⟩ :=
    Conversion.run_bind_eq_ok_iff.mp hrun
  cases inline with
  | some d => cases hrun
  | none =>
      obtain ⟨-, -, hmean⟩ :=
        gives_elementItems hreferences decl.items b none hsound none b₁ hinline
      have hitems := items_eq_nil_of_means hmean
      rw [hitems, elementItems] at hinline
      cases hinline
      obtain ⟨_, b₂, hnamed, hrun⟩ := Conversion.run_bind_eq_ok_iff.mp hrun
      obtain ⟨hextends, hsound₂, hid⟩ := Gives.of_type type hsound _ b₂ hnamed
      have htypes := Conversion.elementTypes_of_run_type hnamed
      cases hrun
      have hkept : ∀ other id', b₂.elementTypes.lookup other = some id' →
          ((name, id) :: b₂.elementTypes).lookup other = some id' := by
        intro other id' hlookup
        rw [← htypes] at hnew
        exact lookup_cons_of_lookup hnew hlookup
      have hnote : b₂.Extends
          { b₂ with elementTypes := (name, id) :: b₂.elementTypes } :=
        ⟨List.prefix_rfl, fun _ _ hlookup => hlookup, hkept, rfl⟩
      refine ⟨hextends.trans hnote, ?_, by simp [Builder.meaning]⟩
      refine hsound₂.of_le hnote.meaning_le hsound₂.pending_lt
        (fun _ _ => .inl) ?_
      intro other id' hlookup
      rcases lookup_cons_eq_some_iff.mp hlookup with ⟨rfl, rfl⟩ | ⟨-, hold⟩
      · exact .inr ⟨decl, hdecl, .inl (.named htype hitems
          (hnote.meaning_le.type _ _ hid))⟩
      · exact .inl ⟨hold, fun hin => hin⟩

/-- The type of one more top-level element is pending. -/
def Pending.building (pending : Pending) (name : String) (id : TypeId) :
    Pending :=
  { pending with elements := (name, id) :: pending.elements }

theorem Pending.has_building {name : String} {id id' : TypeId} :
    (pending.building name id).Has id' ↔ id' = id ∨ pending.Has id' := by
  simp only [Has, building, List.mem_cons, Prod.mk.injEq]
  constructor
  · rintro (htype | ⟨_, ⟨_, rfl⟩ | hname⟩)
    · exact .inr (.inl htype)
    · exact .inl rfl
    · exact .inr (.inr ⟨_, hname⟩)
  · rintro (rfl | htype | ⟨_, hname⟩)
    · exact .inr ⟨name, .inl ⟨rfl, rfl⟩⟩
    · exact .inl htype
    · exact .inr ⟨_, .inr hname⟩

theorem Builder.extends_reserve {b : Builder} {name : String}
    (hnew : b.elementTypes.lookup name = none) :
    b.Extends (b.reserve name) where
  types := List.prefix_append _ _
  builtins _ _ hlookup := hlookup
  elementTypes _ _ := lookup_cons_of_lookup hnew
  elements := rfl

theorem Builder.Sound.reserve {b : Builder} {name : String}
    {decl : ElementDeclaration} (hsound : b.Sound directory pending)
    (hdecl : directory.elements.lookup name = some decl)
    (htype : decl.head.type = none)
    (hnew : b.elementTypes.lookup name = none) :
    (b.reserve name).Sound directory
      (pending.building name b.model.types.length) := by
  have hextends := Builder.extends_reserve hnew
  have hle : (b.meaning directory pending).Le ((b.reserve name).meaning
      directory (pending.building name b.model.types.length)) := by
    refine Builder.meaning_le (fun id d hget hpending => ?_) hextends.builtins
      hextends.elementTypes
    refine ⟨getElem?_of_le hextends.types hget, ?_⟩
    rw [Pending.has_building]
    rintro (rfl | hbefore)
    · simp at hget
    · exact hpending hbefore
  refine hsound.of_le hle (fun id hpending => ?_) (fun _ _ => .inl)
    fun other id hlookup => ?_
  · rw [Builder.reserve, List.length_append]
    rcases Pending.has_building.mp hpending with rfl | hbefore
    · simp
    · exact Nat.lt_add_right _ (hsound.pending_lt id hbefore)
  · rcases lookup_cons_eq_some_iff.mp hlookup with ⟨rfl, rfl⟩ | ⟨-, hold⟩
    · exact .inr ⟨decl, hdecl, .inr ⟨htype, List.mem_cons_self⟩⟩
    · exact .inl ⟨hold, List.mem_cons_of_mem _⟩

/-- A number gets its definition and is not pending any more. -/
theorem Builder.meaning_le_define {b : Builder} {pending pending' : Pending}
    {id : TypeId} (directory : Directory) (d : TypeDef) (hid : pending.Has id)
    (hpending : ∀ id', pending'.Has id' → pending.Has id') :
    (b.meaning directory pending).Le
      (Builder.meaning { b with model := b.model.define id d } directory
        pending') := by
  refine Builder.meaning_le (fun id' d' hget hnot => ?_)
    (fun _ _ hlookup => hlookup) fun _ _ hlookup => hlookup
  have hne : id ≠ id' := by
    rintro rfl
    exact hnot hid
  exact ⟨by simpa [Model.define, List.getElem?_set_ne hne] using hget,
    fun hhas => hnot (hpending id' hhas)⟩

theorem Builder.Sound.define {b : Builder} {name : String} {id : TypeId}
    {decl : ElementDeclaration} {found : Option TypeDef}
    (hsound : b.Sound directory (pending.building name id))
    (hdecl : directory.elements.lookup name = some decl)
    (htype : decl.head.type = none)
    (hitems : ElementItem.AllMean
      (b.meaning directory (pending.building name id)) decl.items none found)
    (hnot : ¬ pending.Has id) :
    Builder.Sound directory pending
      { b with
        model := b.model.define id (found.getD (.builtin .anyType)) } := by
  have hhas : (pending.building name id).Has id :=
    Pending.has_building.mpr (.inl rfl)
  have hlt := hsound.pending_lt id hhas
  have hle := b.meaning_le_define directory
    (found.getD (.builtin .anyType)) hhas fun id' hbefore =>
      Pending.has_building.mpr (.inr hbefore)
  refine hsound.of_le hle (fun id' hpending => ?_) (fun _ _ => .inl)
    fun other id' hlookup => ?_
  · rw [Model.define, List.length_set]
    exact hsound.pending_lt id' (Pending.has_building.mpr (.inr hpending))
  · by_cases hsame : (other, id') = (name, id)
    · cases hsame
      exact .inr ⟨decl, hdecl, .inl (.inline htype (hitems.mono hle)
        ⟨by simp [Model.define, hlt], hnot⟩)⟩
    · exact .inl ⟨hlookup, fun hin => (List.mem_cons.mp hin).resolve_left hsame⟩

theorem Builder.Extends.define {b b₂ : Builder} {name : String}
    (hnew : b.elementTypes.lookup name = none)
    (hextends : (b.reserve name).Extends b₂) (d : TypeDef) :
    b.Extends
      { b₂ with model := b₂.model.define b.model.types.length d } := by
  have hboth := (Builder.extends_reserve hnew).trans hextends
  refine ⟨?_, hboth.builtins, hboth.elementTypes, hboth.elements⟩
  obtain ⟨rest, hrest⟩ := hboth.types
  simp [Model.define, ← hrest, List.set_append_right]

theorem gives_inlineType
    (hreferences : ∀ pending, Interprets directory pending references expanding)
    {name : String} {decl : ElementDeclaration}
    (hdecl : directory.elements.lookup name = some decl)
    (htype : decl.head.type = none) {b : Builder}
    (hnew : b.elementTypes.lookup name = none) :
    Gives directory pending b
      (fun b' id => (b'.meaning directory pending).element name id)
      (inlineType directory references expanding name decl.items) := by
  intro hsound id b₃ hrun
  rw [run_inlineType, run_filledType_eq_ok_iff] at hrun
  obtain ⟨found, b₂, hitems, hfill, rfl⟩ := hrun
  obtain ⟨hextends, hsound₂, hmean⟩ :=
    gives_elementItems (hreferences _) decl.items _ none
      (hsound.reserve hdecl htype hnew) found b₂ hitems
  have hany : b₂.model.types[b.model.types.length]? =
      some (.builtin .anyType) :=
    getElem?_of_le hextends.types (by simp [Builder.reserve])
  rw [run_forM_define hany] at hfill
  cases hfill
  refine ⟨hextends.define hnew _,
    hsound₂.define hdecl htype hmean hsound.not_pending, ?_⟩
  exact hextends.elementTypes name _ (by simp [Builder.reserve])

/-- A top-level element has its type from when it is first met. -/
theorem gives_topLevelType
    (hreferences : ∀ pending, Interprets directory pending references expanding)
    {name : String} {decl : ElementDeclaration} {b : Builder}
    (hdecl : b.elementTypes.lookup name = none →
      directory.elements.lookup name = some decl) :
    Gives directory pending b
      (fun b' id => (b'.meaning directory pending).element name id)
      (topLevelType directory references expanding name decl) := by
  intro hsound id b' hrun
  cases hlookup : b.elementTypes.lookup name with
  | some found =>
      rw [run_topLevelType_of_some _ _ _ hlookup] at hrun
      cases hrun
      exact ⟨.refl b, hsound, hlookup⟩
  | none =>
      rw [run_topLevelType_of_none _ _ _ hlookup] at hrun
      cases htype : decl.head.type with
      | some type =>
          rw [htype] at hrun
          exact gives_namedType (hreferences pending) (hdecl hlookup) htype
            hlookup hsound id b' hrun
      | none =>
          rw [htype] at hrun
          exact gives_inlineType hreferences (hdecl hlookup) htype hlookup
            hsound id b' hrun

end Content

/-- However many references are followed into one another, what they give is
what their names stand for. -/
theorem interprets_within {directory : Directory} (depth : Nat)
    (pending : Pending) (expanding : List String) :
    Interprets directory pending (References.within directory depth)
      expanding := by
  induction depth generalizing pending expanding with
  | zero => exact ⟨fun _ _ => .of_throw, fun _ _ => .of_throw⟩
  | succ depth ih =>
      constructor
      · intro b name
        change Gives directory pending b _ (namedGroup directory
          (References.within directory depth) expanding name)
        unfold namedGroup
        split
        · exact .of_throw
        · cases hgroup : directory.groups.lookup name with
          | none => exact .of_throw
          | some items =>
              exact gives_groupContent (ih pending (name :: expanding)) name
                items hgroup b
      · intro b name
        change Gives directory pending b _ (namedElement directory
          (References.within directory depth) expanding name)
        unfold namedElement
        cases hdecl : directory.elements.lookup name with
        | none => exact .of_throw
        | some decl =>
            exact gives_topLevelType (fun pending => ih pending expanding)
              fun _ => hdecl

end Declaration

end Specimen
