/-
Two conversions of the same declarations side by side, with what they refer to
resolved in two ways.  They go alongside each other if they give linked results
as long as both succeed, and otherwise fail in the ways that are let pass.
-/
import Specimen.Declaration.Conversion
import Specimen.Proofs.Renumbering

namespace Specimen

/-- The error does not come of references that are followed into one another. -/
def DeclarationError.Ordinary : DeclarationError → Prop
  | endless _ => False
  | groupInItself _ => False
  | _ => True

namespace Declaration

/-- What is kept up between two conversions while they go on, and which of their
failures are let pass. -/
structure Comparison (W : Type) where
  /-- One state of affairs comes behind another. -/
  later : W → W → Prop
  /-- The builders are in a state of affairs. -/
  holds : W → Builder → Builder → Prop
  /-- Two type numbers belong together. -/
  same : W → TypeId → TypeId → Prop
  /-- The first conversion may fail so, whatever the second does. -/
  firstMay : DeclarationError → Prop
  /-- The second conversion may fail so, whatever the first does. -/
  secondMay : DeclarationError → Prop
  /-- The conversions may fail so together. -/
  bothMay : DeclarationError → DeclarationError → Prop
  later_refl : ∀ w, later w w
  later_trans : ∀ {w w' w''}, later w w' → later w' w'' → later w w''
  same_later : ∀ {w w' i j}, later w w' → same w i j → same w' i j
  bothMay_self : ∀ {e}, e.Ordinary → bothMay e e

namespace Comparison

variable {W : Type} {C : Comparison W} {w w' : W} {α α' β β' : Type}

/-- The ends of two conversions belong together. -/
inductive Outcome (C : Comparison W) (w : W) (related : W → α → α' → Prop) :
    Except DeclarationError (α × Builder) →
      Except DeclarationError (α' × Builder) → Prop where
  | ok {a : α} {a' : α'} {s t : Builder} (w' : W) (hlater : C.later w w')
    (hholds : C.holds w' s t) (hrelated : related w' a a') :
    Outcome C w related (.ok (a, s)) (.ok (a', t))
  | first {e : DeclarationError} (hmay : C.firstMay e)
    (second : Except DeclarationError (α' × Builder)) :
    Outcome C w related (.error e) second
  | second {e : DeclarationError} (hmay : C.secondMay e)
    (first : Except DeclarationError (α × Builder)) :
    Outcome C w related first (.error e)
  | both {e e' : DeclarationError} (hmay : C.bothMay e e') :
    Outcome C w related (.error e) (.error e')

/-- From builders in the same state of affairs the conversions come to ends that
belong together. -/
def Alongside (C : Comparison W) (w : W) (related : W → α → α' → Prop)
    (x : Conversion α) (y : Conversion α') : Prop :=
  ∀ s t, C.holds w s t → C.Outcome w related (x.run s) (y.run t)

theorem Outcome.of_later {related : W → α → α' → Prop}
    {first : Except DeclarationError (α × Builder)}
    {second : Except DeclarationError (α' × Builder)} (hlater : C.later w w')
    (houtcome : C.Outcome w' related first second) :
    C.Outcome w related first second := by
  cases houtcome with
  | ok w'' hlater' hholds hrelated =>
      exact .ok w'' (C.later_trans hlater hlater') hholds hrelated
  | first hmay => exact .first hmay _
  | second hmay => exact .second hmay _
  | both hmay => exact .both hmay

namespace Alongside

variable {related : W → α → α' → Prop} {related' : W → β → β' → Prop}

theorem of_pure {a : α} {a' : α'} (hrelated : related w a a') :
    C.Alongside w related (pure a) (pure a') :=
  fun _ _ hholds => .ok w (C.later_refl w) hholds hrelated

/-- A failure of both conversions that is let pass. -/
theorem of_both {e : DeclarationError} (hmay : C.bothMay e e) :
    C.Alongside w related (throw e) (throw e) :=
  fun _ _ _ => .both hmay

theorem of_throw {e : DeclarationError} (hordinary : e.Ordinary) :
    C.Alongside w related (throw e) (throw e) :=
  of_both (C.bothMay_self hordinary)

/-- A failure of the first conversion that is let pass. -/
theorem of_first {e : DeclarationError} (hmay : C.firstMay e)
    (y : Conversion α') : C.Alongside w related (throw e) y :=
  fun _ _ _ => .first hmay _

/-- A failure of the second conversion that is let pass. -/
theorem of_second {e : DeclarationError} (hmay : C.secondMay e)
    (x : Conversion α) : C.Alongside w related x (throw e) :=
  fun _ _ _ => .second hmay _

theorem bind {x : Conversion α} {y : Conversion α'} {f : α → Conversion β}
    {g : α' → Conversion β'} (hfirst : C.Alongside w related x y)
    (hnext : ∀ w', C.later w w' → ∀ a a', related w' a a' →
      C.Alongside w' related' (f a) (g a')) :
    C.Alongside w related' (x >>= f) (y >>= g) := by
  intro s t hholds
  have houtcome := hfirst s t hholds
  rw [StateT.run_bind, StateT.run_bind]
  generalize x.run s = first at houtcome
  generalize y.run t = second at houtcome
  cases houtcome with
  | ok w' hlater hholds' hrelated =>
      exact (hnext w' hlater _ _ hrelated _ _ hholds').of_later hlater
  | first hmay => exact .first hmay _
  | second hmay => exact .second hmay _
  | both hmay => exact .both hmay

theorem mono {related' : W → α → α' → Prop} {x : Conversion α}
    {y : Conversion α'} (halongside : C.Alongside w related x y)
    (hle : ∀ w', C.later w w' → ∀ a a', related w' a a' → related' w' a a') :
    C.Alongside w related' x y := by
  intro s t hholds
  have houtcome := halongside s t hholds
  generalize x.run s = first at houtcome ⊢
  generalize y.run t = second at houtcome ⊢
  cases houtcome with
  | ok w' hlater hholds' hrelated =>
      exact .ok w' hlater hholds' (hle w' hlater _ _ hrelated)
  | first hmay => exact .first hmay _
  | second hmay => exact .second hmay _
  | both hmay => exact .both hmay

/-- Steps for the members of a list, one after the other. -/
theorem forM {γ : Type} {f g : γ → Conversion Unit} (l : List γ) {w : W}
    (hsteps : ∀ w', C.later w w' → ∀ c ∈ l,
      C.Alongside w' (fun _ _ _ => True) (f c) (g c)) :
    C.Alongside w (fun _ _ _ => True) (l.forM f) (l.forM g) := by
  induction l generalizing w with
  | nil => exact of_pure trivial
  | cons c l ih =>
      apply (hsteps w (C.later_refl w) c List.mem_cons_self).bind
      intro w' hlater _ _ _
      apply ih
      intro w'' hlater' c' hc'
      exact hsteps w'' (C.later_trans hlater hlater') c'
        (List.mem_cons_of_mem c hc')

/-- What does not look at the builder does the same in both conversions. -/
theorem of_except {result : Except DeclarationError α}
    (hordinary : ∀ e, result = .error e → e.Ordinary) :
    C.Alongside w (fun _ a a' => a = a') (liftM result : Conversion α)
      (liftM result : Conversion α) := by
  cases result with
  | ok a => exact of_pure rfl
  | error e => exact of_throw (hordinary e rfl)

end Alongside

/-- The steps that touch the builder go alongside. -/
structure Supports (C : Comparison W) (directory directory' : Directory) :
    Prop where
  add : ∀ w {d d' : TypeDef}, d.Linked (C.same w) d' →
    C.Alongside w C.same (Conversion.add d) (Conversion.add d')
  builtin : ∀ w name,
    C.Alongside w C.same (Conversion.builtin name) (Conversion.builtin name)
  type : ∀ w name, C.Alongside w C.same (Conversion.type directory name)
    (Conversion.type directory' name)
  refer : ∀ w name, C.Alongside w (fun _ _ _ => True)
    (Conversion.refer name) (Conversion.refer name)

end Comparison

open Comparison

theorem ordinary_of_addFacet {facets : Facets} {facet : Facet}
    {e : DeclarationError} (hfails : addFacet facets facet = .error e) :
    e.Ordinary := by
  have hnumber {bits : Nat} {value facet : String} {next : Nat → Facets}
      (hfails : (do return next (← facetNumber bits value facet)) =
        Except.error e) : e.Ordinary := by
    unfold facetNumber at hfails
    split at hfails <;> cases hfails
    trivial
  obtain ⟨kind, value⟩ := facet
  cases kind <;> first | exact hnumber hfails | (cases hfails <;> trivial)

theorem ordinary_of_checkHead {head : ElementHead} {name : String}
    {e : DeclarationError} (hfails : checkHead head name = .error e) :
    e.Ordinary := by
  unfold checkHead at hfails
  split at hfails
  · cases hfails
    trivial
  · split at hfails <;> cases hfails
    trivial

variable {W : Type} {C : Comparison W} {directory directory' : Directory}

section Simple

theorem alongside_orString (hsupports : C.Supports directory directory') {w : W}
    {found found' : Option TypeDef}
    (hfound : Option.Rel (TypeDef.Linked (C.same w)) found found') :
    C.Alongside w (fun w => TypeDef.Linked (C.same w)) (orString found)
      (orString found') := by
  cases hfound with
  | some hlinked => exact .of_pure hlinked
  | none =>
      apply (hsupports.builtin w "string").bind
      intro w' _ i j hsame
      exact .of_pure (.restriction Facets.none hsame)

theorem alongside_named (hsupports : C.Supports directory directory') {w : W}
    (name : Option String) :
    C.Alongside w (fun w => Option.Rel (C.same w))
      (name.mapM (Conversion.type directory))
      (name.mapM (Conversion.type directory')) := by
  cases name with
  | none => exact .of_pure .none
  | some name =>
      change C.Alongside w _
        (Conversion.type directory name >>= fun id => pure (some id))
        (Conversion.type directory' name >>= fun id => pure (some id))
      apply (hsupports.type w name).bind
      intro w' _ i j hsame
      exact .of_pure (.some hsame)

theorem sameOr {w : W} {first first' second second' : Option TypeId}
    (hfirst : Option.Rel (C.same w) first first')
    (hsecond : Option.Rel (C.same w) second second') :
    Option.Rel (C.same w) (first.or second) (first'.or second') := by
  cases hfirst with
  | some hsame => exact .some hsame
  | none => exact hsecond

theorem rel_later {w w' : W} (hlater : C.later w w') {i j : Option TypeId}
    (hsame : Option.Rel (C.same w) i j) : Option.Rel (C.same w') i j := by
  cases hsame with
  | some hsame => exact .some (C.same_later hlater hsame)
  | none => exact .none

mutual

theorem alongside_simpleItems (hsupports : C.Supports directory directory')
    (items : List SimpleItem) {w : W} {found found' : Option TypeDef}
    (hfound : Option.Rel (TypeDef.Linked (C.same w)) found found') :
    C.Alongside w (fun w => Option.Rel (TypeDef.Linked (C.same w)))
      (simpleItems directory items found)
      (simpleItems directory' items found') := by
  cases items with
  | nil =>
      rw [simpleItems, simpleItems]
      exact .of_pure hfound
  | cons item rest =>
      rw [simpleItems, simpleItems]
      apply (alongside_simpleItem hsupports item).bind
      intro w' _ d d' hlinked
      exact alongside_simpleItems hsupports rest (.some hlinked)

theorem alongside_simpleItem (hsupports : C.Supports directory directory')
    (item : SimpleItem) {w : W} :
    C.Alongside w (fun w => TypeDef.Linked (C.same w))
      (simpleItem directory item) (simpleItem directory' item) := by
  cases item with
  | restriction base items =>
      rw [simpleItem, simpleItem]
      apply (alongside_named hsupports base).bind
      intro w' _ named named' hnamed
      exact alongside_restrictionItems hsupports items hnamed Facets.none
  | list =>
      rw [simpleItem, simpleItem]
      exact .of_throw trivial
  | union =>
      rw [simpleItem, simpleItem]
      exact .of_throw trivial

theorem alongside_restrictionItems
    (hsupports : C.Supports directory directory')
    (items : List RestrictionItem) {w : W} {base base' : Option TypeId}
    (hbase : Option.Rel (C.same w) base base') (facets : Facets) :
    C.Alongside w (fun w => TypeDef.Linked (C.same w))
      (restrictionItems directory items base facets)
      (restrictionItems directory' items base' facets) := by
  cases items with
  | nil =>
      cases hbase with
      | some hsame =>
          rw [restrictionItems, restrictionItems]
          exact .of_pure (.restriction facets hsame)
      | none =>
          rw [restrictionItems, restrictionItems]
          exact .of_throw trivial
  | cons item rest =>
      rw [restrictionItems, restrictionItems]
      apply (alongside_restrictionItem hsupports item facets).bind
      rintro w' hlater ⟨inline, facets⟩ ⟨inline', _⟩ ⟨hinline, rfl⟩
      exact alongside_restrictionItems hsupports rest
        (sameOr hinline (rel_later hlater hbase)) facets

theorem alongside_restrictionItem
    (hsupports : C.Supports directory directory') (item : RestrictionItem)
    (facets : Facets) {w : W} :
    C.Alongside w
      (fun w p p' => Option.Rel (C.same w) p.1 p'.1 ∧ p.2 = p'.2)
      (restrictionItem directory item facets)
      (restrictionItem directory' item facets) := by
  cases item with
  | simpleType items =>
      rw [restrictionItem, restrictionItem]
      apply (alongside_simpleItems hsupports items .none).bind
      intro w₁ _ found found' hfound
      apply (alongside_orString hsupports hfound).bind
      intro w₂ _ d d' hlinked
      apply (hsupports.add w₂ hlinked).bind
      intro w₃ _ i j hsame
      exact .of_pure ⟨.some hsame, rfl⟩
  | facet facet =>
      rw [restrictionItem, restrictionItem]
      apply (Alongside.of_except fun _ => ordinary_of_addFacet).bind
      rintro w' _ facets' _ rfl
      exact .of_pure ⟨.none, rfl⟩

end

theorem alongside_simpleType (hsupports : C.Supports directory directory')
    (items : List SimpleItem) {w : W} :
    C.Alongside w (fun w => TypeDef.Linked (C.same w))
      (simpleType directory items) (simpleType directory' items) := by
  unfold simpleType
  apply (alongside_simpleItems hsupports items .none).bind
  intro w' _ found found' hfound
  exact alongside_orString hsupports hfound

theorem alongside_attributeType (hsupports : C.Supports directory directory')
    (decl : Attribute) {w : W} :
    C.Alongside w C.same (attributeType directory decl)
      (attributeType directory' decl) := by
  unfold attributeType
  split
  · exact hsupports.type w _
  · apply (alongside_simpleType hsupports _).bind
    intro w' _ d d' hlinked
    exact hsupports.add w' hlinked
  · exact hsupports.builtin w _

theorem alongside_attributeDecl (hsupports : C.Supports directory directory')
    (decl : Attribute) {w : W} :
    C.Alongside w (fun w => AttributeDecl.Linked (C.same w))
      (attributeDecl directory decl) (attributeDecl directory' decl) := by
  unfold attributeDecl
  split
  · exact .of_throw trivial
  · split
    · exact .of_throw trivial
    · apply (alongside_attributeType hsupports decl).bind
      intro w' _ i j hsame
      exact .of_pure ⟨_, decl.usage, hsame⟩

end Simple

/-- What references lead to: named groups and top-level elements. -/
inductive Target where
  | group (name : String)
  | element (name : String)
deriving DecidableEq

mutual

/-- What parts of a group refer to. -/
def targetsInGroup : List GroupItem → List Target
  | [] => []
  | item :: rest => targetsInGroupItem item ++ targetsInGroup rest

def targetsInGroupItem : GroupItem → List Target
  | .element head items =>
    match head.reference with
    | some name => [.element name]
    | none => targetsInElement items
  | .reference target _ => (target.map .group).toList
  | .group _ _ items => targetsInGroup items
  | .any _ => []

def targetsInElement : List ElementItem → List Target
  | [] => []
  | item :: rest => targetsInElementItem item ++ targetsInElement rest

def targetsInElementItem : ElementItem → List Target
  | .simpleType _ => []
  | .complexType items => targetsInType items
  | .alternative => []

def targetsInType : List ComplexItem → List Target
  | [] => []
  | item :: rest => targetsInTypeItem item ++ targetsInType rest

def targetsInTypeItem : ComplexItem → List Target
  | .group _ _ items => targetsInGroup items
  | .reference target _ => (target.map .group).toList
  | .attributeUse _ => []
  | .unsupported _ => []

end

section Content

variable {references references' : References}
  {expanding expanding' : List String} {w₀ : W} {targets : Target → Prop}

/-- References are followed alongside each other, as far as they lead to some
targets, in all states of affairs behind a first one. -/
structure Follow (C : Comparison W) (references references' : References)
    (expanding expanding' : List String) (w₀ : W) (targets : Target → Prop) :
    Prop where
  group : ∀ w, C.later w₀ w → ∀ name, targets (.group name) →
    C.Alongside w (fun w => Group.Linked (C.same w))
      (references.group expanding name) (references'.group expanding' name)
  element : ∀ w, C.later w₀ w → ∀ name, targets (.element name) →
    C.Alongside w C.same (references.element expanding name)
      (references'.element expanding' name)

theorem alongside_groupReference
    (hfollow : Follow C references references' expanding expanding' w₀ targets)
    {w : W} (hw : C.later w₀ w) (target : Option String) (occurs : Occurs)
    (htargets : ∀ t ∈ (target.map Target.group).toList, targets t) :
    C.Alongside w (fun w => Group.Linked (C.same w))
      (groupReference references expanding target occurs)
      (groupReference references' expanding' target occurs) := by
  unfold groupReference
  split
  · exact .of_throw trivial
  · rename_i name
    have hname : targets (.group name) := htargets _ (by simp)
    apply (hfollow.group w hw name hname).bind
    intro w' _ content content' hlinked
    exact .of_pure (.group .sequence occurs (.cons hlinked .nil))

theorem alongside_checkHead {w : W} (head : ElementHead) (name : String) :
    C.Alongside w (fun _ _ _ => True) (liftM (checkHead head name))
      (liftM (checkHead head name)) :=
  (Alongside.of_except fun _ => ordinary_of_checkHead).mono
    fun _ _ _ _ _ => trivial

theorem alongside_ownType (hsupports : C.Supports directory directory') {w : W}
    (element : String) {inline inline' : Option TypeDef}
    (hinline : Option.Rel (TypeDef.Linked (C.same w)) inline inline')
    (named : Option String) :
    C.Alongside w C.same (ownType directory element inline named)
      (ownType directory' element inline' named) := by
  cases hinline with
  | some hlinked =>
      cases named with
      | some name => exact .of_throw trivial
      | none => exact hsupports.add w hlinked
  | none =>
      cases named with
      | some name => exact hsupports.type w name
      | none => exact hsupports.builtin w _

mutual

theorem alongside_groupItems (hsupports : C.Supports directory directory')
    (hfollow : Follow C references references' expanding expanding' w₀ targets)
    (items : List GroupItem) {w : W} (hw : C.later w₀ w)
    (htargets : ∀ target ∈ targetsInGroup items, targets target) :
    C.Alongside w (fun w => Particle.AllLinked (C.same w))
      (groupItems directory references expanding items)
      (groupItems directory' references' expanding' items) := by
  cases items with
  | nil =>
      rw [groupItems, groupItems]
      exact .of_pure .nil
  | cons item rest =>
      rw [groupItems, groupItems]
      simp only [targetsInGroup, List.mem_append] at htargets
      apply (alongside_groupItem hsupports hfollow item hw
        fun target hmem => htargets target (.inl hmem)).bind
      intro w₁ hlater₁ p q hfirst
      apply (alongside_groupItems hsupports hfollow rest
        (C.later_trans hw hlater₁)
        fun target hmem => htargets target (.inr hmem)).bind
      intro w₂ hlater₂ ps qs hrest
      exact .of_pure (.cons
        (hfirst.mono fun _ _ => C.same_later hlater₂) hrest)

theorem alongside_groupItem (hsupports : C.Supports directory directory')
    (hfollow : Follow C references references' expanding expanding' w₀ targets)
    (item : GroupItem) {w : W} (hw : C.later w₀ w)
    (htargets : ∀ target ∈ targetsInGroupItem item, targets target) :
    C.Alongside w (fun w => Particle.Linked (C.same w))
      (groupItem directory references expanding item)
      (groupItem directory' references' expanding' item) := by
  cases item with
  | element head items =>
      rw [groupItem, groupItem]
      cases hreference : head.reference with
      | some name =>
          have hname : targets (.element name) := htargets _ (by
            simp only [targetsInGroupItem, hreference, List.mem_singleton])
          apply (alongside_checkHead head name).bind
          intro w₁ hlater₁ _ _ _
          apply (hfollow.element w₁ (C.later_trans hw hlater₁) name hname).bind
          intro w₂ _ i j hsame
          apply (hsupports.refer w₂ name).bind
          intro w₃ hlater₃ _ _ _
          exact .of_pure (.element name head.occurs
            (C.same_later hlater₃ hsame))
      | none =>
          simp only [targetsInGroupItem, hreference] at htargets
          cases head.name with
          | none => exact .of_throw trivial
          | some name =>
              apply (alongside_checkHead head name).bind
              intro w₁ hlater₁ _ _ _
              apply (alongside_elementItems hsupports hfollow items .none
                (C.later_trans hw hlater₁) htargets).bind
              intro w₂ _ inline inline' hinline
              apply (alongside_ownType hsupports name hinline head.type).bind
              intro w₃ _ i j hsame
              exact .of_pure (.element name head.occurs hsame)
  | reference target occurs =>
      rw [groupItem, groupItem]
      apply (alongside_groupReference hfollow hw target occurs htargets).bind
      intro w' _ g g' hlinked
      exact .of_pure hlinked
  | group order occurs items =>
      rw [groupItem, groupItem]
      rw [targetsInGroupItem] at htargets
      apply (alongside_groupItems hsupports hfollow items hw htargets).bind
      intro w' _ ps qs hlinked
      exact .of_pure (.group order occurs hlinked)
  | any occurs =>
      rw [groupItem, groupItem]
      exact .of_pure (.any occurs)

theorem alongside_elementItems (hsupports : C.Supports directory directory')
    (hfollow : Follow C references references' expanding expanding' w₀ targets)
    (items : List ElementItem) {w : W} {found found' : Option TypeDef}
    (hfound : Option.Rel (TypeDef.Linked (C.same w)) found found')
    (hw : C.later w₀ w)
    (htargets : ∀ target ∈ targetsInElement items, targets target) :
    C.Alongside w (fun w => Option.Rel (TypeDef.Linked (C.same w)))
      (elementItems directory references expanding items found)
      (elementItems directory' references' expanding' items found') := by
  cases items with
  | nil =>
      rw [elementItems, elementItems]
      exact .of_pure hfound
  | cons item rest =>
      rw [elementItems, elementItems]
      simp only [targetsInElement, List.mem_append] at htargets
      apply (alongside_elementItem hsupports hfollow item hw
        fun target hmem => htargets target (.inl hmem)).bind
      intro w' hlater d d' hlinked
      exact alongside_elementItems hsupports hfollow rest (.some hlinked)
        (C.later_trans hw hlater) fun target hmem => htargets target (.inr hmem)

theorem alongside_elementItem (hsupports : C.Supports directory directory')
    (hfollow : Follow C references references' expanding expanding' w₀ targets)
    (item : ElementItem) {w : W} (hw : C.later w₀ w)
    (htargets : ∀ target ∈ targetsInElementItem item, targets target) :
    C.Alongside w (fun w => TypeDef.Linked (C.same w))
      (elementItem directory references expanding item)
      (elementItem directory' references' expanding' item) := by
  cases item with
  | simpleType items =>
      rw [elementItem, elementItem]
      exact alongside_simpleType hsupports items
  | complexType items =>
      rw [elementItem, elementItem]
      rw [targetsInElementItem] at htargets
      apply (alongside_complexItems hsupports hfollow items (.intro .none .nil)
        hw htargets).bind
      intro w' _ t u hlinked
      exact .of_pure (.complex hlinked)
  | alternative =>
      rw [elementItem, elementItem]
      exact .of_throw trivial

theorem alongside_complexItems (hsupports : C.Supports directory directory')
    (hfollow : Follow C references references' expanding expanding' w₀ targets)
    (items : List ComplexItem) {w : W} {t u : ComplexType}
    (htype : t.Linked (C.same w) u) (hw : C.later w₀ w)
    (htargets : ∀ target ∈ targetsInType items, targets target) :
    C.Alongside w (fun w => ComplexType.Linked (C.same w))
      (complexItems directory references expanding items t)
      (complexItems directory' references' expanding' items u) := by
  cases items with
  | nil =>
      rw [complexItems, complexItems]
      exact .of_pure htype
  | cons item rest =>
      rw [complexItems, complexItems]
      simp only [targetsInType, List.mem_append] at htargets
      apply (alongside_complexItem hsupports hfollow item htype hw
        fun target hmem => htargets target (.inl hmem)).bind
      intro w' hlater t' u' hlinked
      exact alongside_complexItems hsupports hfollow rest hlinked
        (C.later_trans hw hlater) fun target hmem => htargets target (.inr hmem)

theorem alongside_complexItem (hsupports : C.Supports directory directory')
    (hfollow : Follow C references references' expanding expanding' w₀ targets)
    (item : ComplexItem) {w : W} {t u : ComplexType}
    (htype : t.Linked (C.same w) u) (hw : C.later w₀ w)
    (htargets : ∀ target ∈ targetsInTypeItem item, targets target) :
    C.Alongside w (fun w => ComplexType.Linked (C.same w))
      (complexItem directory references expanding item t)
      (complexItem directory' references' expanding' item u) := by
  cases item with
  | group order occurs items =>
      rw [complexItem, complexItem]
      rw [targetsInTypeItem] at htargets
      apply (alongside_groupItems hsupports hfollow items hw htargets).bind
      intro w' hlater ps qs hlinked
      obtain ⟨-, hattributes⟩ := htype.mono fun _ _ => C.same_later hlater
      exact .of_pure (.intro (.some (.group order occurs hlinked)) hattributes)
  | reference target occurs =>
      rw [complexItem, complexItem]
      apply (alongside_groupReference hfollow hw target occurs htargets).bind
      intro w' hlater g g' hlinked
      obtain ⟨-, hattributes⟩ := htype.mono fun _ _ => C.same_later hlater
      exact .of_pure (.intro (.some hlinked) hattributes)
  | attributeUse decl =>
      rw [complexItem, complexItem]
      apply (alongside_attributeDecl hsupports decl).bind
      intro w' hlater a a' hlinked
      obtain ⟨hcontent, hattributes⟩ := htype.mono fun _ _ =>
        C.same_later hlater
      exact .of_pure (.intro hcontent
        (List.rel_append hattributes (.cons hlinked .nil)))
  | unsupported construct =>
      rw [complexItem, complexItem]
      exact .of_throw trivial

end

/-- The contents of named groups are alongside if references are. -/
theorem alongside_groupContent (hsupports : C.Supports directory directory')
    (hfollow : Follow C references references' expanding expanding' w₀ targets)
    (name : String) (items : List GroupItem)
    (htargets : ∀ target ∈ targetsInGroup items, targets target) :
    C.Alongside w₀ (fun w => Group.Linked (C.same w))
      (groupContent directory references expanding name items)
      (groupContent directory' references' expanding' name items) := by
  unfold groupContent
  split
  · rename_i order occurs items rest
    simp only [targetsInGroup, targetsInGroupItem, List.mem_append] at htargets
    apply (alongside_groupItems hsupports hfollow items (C.later_refl w₀)
      fun target hmem => htargets target (.inl hmem)).bind
    intro w' _ ps qs hlinked
    exact .of_pure (.group order occurs hlinked)
  · exact .of_throw trivial

end Content

end Declaration

end Specimen
