/-
Content models say the same as the declarations that they are made from.  The
declarations are read with their references: a name of a group stands for the
words of the group, and a name of an element for the top-level element.  The
stored content has no references left, and has the same words.
-/
import Mathlib.Order.FixedPoints
import Specimen.Proofs.MatchedWords
import Specimen.Proofs.Reordering
import Specimen.Proofs.TypeReferences

namespace Specimen

open ContentReading (repetitions)

/-- A letter of content: an element, or a wildcard that stands for itself. -/
inductive Symbol (ε : Type) where
  | element (e : ε)
  | any (occurs : Occurs)

/-- The letters are wildcards with the same bounds, or elements that are
related. -/
inductive Symbol.Rel {ε δ : Type} (R : ε → δ → Prop) :
    Symbol ε → Symbol δ → Prop
  | element {e : ε} {d : δ} (hrelated : R e d) :
    Symbol.Rel R (.element e) (.element d)
  | any (occurs : Occurs) : Symbol.Rel R (.any occurs) (.any occurs)

section Stored

variable (counts : Occurs → Set Nat)

mutual

/-- The words of a part of a stored content model. -/
def Particle.words : Particle → Language (Symbol ElementDecl)
  | .element decl => repetitions (counts decl.occurs) {[.element decl]}
  | .group g => Group.words g
  | .any occurs => {[.any occurs]}

def Group.words : GroupOf Particle → Language (Symbol ElementDecl)
  | ⟨order, occurs, children⟩ =>
    repetitions (counts occurs) (order.words (Particle.wordsOfEach children))

def Particle.wordsOfEach :
    List Particle → List (Language (Symbol ElementDecl))
  | [] => []
  | p :: rest => Particle.words p :: Particle.wordsOfEach rest

end

def ComplexType.words (t : ComplexType) : Language (Symbol ElementDecl) :=
  match t.content with
  | none => 1
  | some g => Group.words counts g

end Stored

namespace Declaration

/-- The declaration that an element comes from: the one in its place, or the one
at the top level that is referred to there. -/
inductive ElementSource where
  | own (head : ElementHead) (items : List ElementItem)
  | top (name : String) (decl : ElementDeclaration)

namespace ElementSource

def items : ElementSource → List ElementItem
  | own _ items => items
  | top _ decl => decl.items

def inline? (source : ElementSource) : Option (List ComplexItem) :=
  match source.items.getLast? with
  | some (.complexType items) => some items
  | _ => none

theorem inline?_eq_some_iff {source : ElementSource}
    {items : List ComplexItem} : source.inline? = some items ↔
      source.items.getLast? = some (.complexType items) := by
  unfold inline?
  split
  · rename_i hlast
    simp [hlast]
  · rename_i hlast
    exact iff_of_false nofun (hlast _)

end ElementSource

section Declared

variable (declarations : List TopLevel) (counts : Occurs → Set Nat)

/-- The declaration of an element in a group. -/
def ElementHead.source? (head : ElementHead) (items : List ElementItem) :
    Option ElementSource :=
  match head.reference with
  | none => some (.own head items)
  | some name =>
    ((declarations.filterMap TopLevel.element?).lookup name).map (.top name)

section Named

variable (named : String → Language (Symbol ElementSource))

mutual

/-- The words of a part of a group, if it is known which words named groups
stand for. -/
def GroupItem.words : GroupItem → Language (Symbol ElementSource)
  | .element head items =>
    match head.source? declarations items with
    | some source => repetitions (counts head.occurs) {[.element source]}
    | none => 0
  | .reference (some name) occurs => repetitions (counts occurs) (named name)
  | .reference none _ => 0
  | .group order occurs items =>
    repetitions (counts occurs) (order.words (GroupItem.wordsOfEach items))
  | .any occurs => {[.any occurs]}

def GroupItem.wordsOfEach :
    List GroupItem → List (Language (Symbol ElementSource))
  | [] => []
  | item :: rest => GroupItem.words item :: GroupItem.wordsOfEach rest

end

/-- The words of the sequence, choice or all that a named group begins with. -/
def groupWords (name : String) : Language (Symbol ElementSource) :=
  match (declarations.filterMap TopLevel.group?).lookup name with
  | some (.group order occurs items :: _) =>
    GroupItem.words declarations counts named (.group order occurs items)
  | _ => 0

end Named

mutual

theorem GroupItem.matched_words
    {named named' : String → Language (Symbol ElementSource)}
    (hle : named ≤ named') : ∀ item : GroupItem,
    Matched Eq (item.words declarations counts named)
      (item.words declarations counts named')
  | .element _ _ => matched_eq_iff.mpr le_rfl
  | .reference (some name) _ =>
      .repetitions (matched_eq_iff.mpr (hle name)) _
  | .reference none _ => .zero
  | .group order _ items =>
      .repetitions (.order (GroupItem.matched_wordsOfEach hle items) order) _
  | .any _ => matched_eq_iff.mpr le_rfl

theorem GroupItem.matched_wordsOfEach
    {named named' : String → Language (Symbol ElementSource)}
    (hle : named ≤ named') : ∀ items : List GroupItem,
    List.Forall₂ (Matched Eq)
      (GroupItem.wordsOfEach declarations counts named items)
      (GroupItem.wordsOfEach declarations counts named' items)
  | [] => .nil
  | item :: rest =>
      .cons (GroupItem.matched_words hle item)
        (GroupItem.matched_wordsOfEach hle rest)

end

theorem groupWords_mono : Monotone (groupWords declarations counts) := by
  intro named named' hle name
  unfold groupWords
  split
  · exact matched_eq_iff.mp
      (GroupItem.matched_words declarations counts hle _)
  · exact le_rfl

/-- The words that named groups stand for, which may refer to one another. -/
noncomputable def named : String → Language (Symbol ElementSource) :=
  OrderHom.lfp
    ⟨groupWords declarations counts, groupWords_mono declarations counts⟩

theorem groupWords_named : groupWords declarations counts
    (named declarations counts) = named declarations counts :=
  OrderHom.map_lfp ⟨groupWords declarations counts,
    groupWords_mono declarations counts⟩

/-- The part of a complex type is content. -/
def ComplexItem.content? : ComplexItem → Option GroupItem
  | .group order occurs items => some (.group order occurs items)
  | .reference target occurs => some (.reference target occurs)
  | _ => none

noncomputable def contentWords (items : List ComplexItem) :
    Language (Symbol ElementSource) :=
  match items.filterMap ComplexItem.content? with
  | [] => 1
  | item :: _ =>
    item.words declarations counts (named declarations counts)

end Declared

/-- The stored element comes from the declaration: it has its name, and the type
that the declaration says. -/
inductive ElementSource.Fits (M : Meaning) : ElementSource → ElementDecl → Prop
  | own {head : ElementHead} {name : String} {items : List ElementItem}
    {inline : Option TypeDef} {id : TypeId} (hname : head.name = some name)
    (hitems : ElementItem.AllMean M items none inline)
    (htype : OwnType M inline head.type id) :
    ElementSource.Fits M (.own head items) ⟨name, id, head.occurs⟩
  | top {name : String} {decl : ElementDeclaration} {id : TypeId}
    (occurs : Occurs) (helement : M.element name id)
    (hmeans : decl.Means M id) :
    ElementSource.Fits M (.top name decl) ⟨name, id, occurs⟩

section Meanings

variable {declarations : List TopLevel} {M : Meaning}
  (counts : Occurs → Set Nat)

/-- The meaning is one of the declarations, whose names are distinct. -/
structure Meaning.Of (M : Meaning) (declarations : List TopLevel) : Prop where
  group : ∀ name, M.group name =
    (declarations.filterMap TopLevel.group?).lookup name
  element : ∀ name id, M.element name id → ∃ decl,
    (declarations.filterMap TopLevel.element?).lookup name = some decl ∧
      decl.Means M id

mutual

/-- By induction on what the declarations mean: named groups are unfolded as
they are in the meaning. -/
theorem GroupItem.Means.agrees (hof : M.Of declarations) {item : GroupItem}
    {p : Particle} : item.Means M p →
      Agrees (Symbol.Rel (ElementSource.Fits M))
        (item.words declarations counts (named declarations counts))
        (p.words counts)
  | .reference items hreference helement => by
    obtain ⟨decl, hdecl, hmeans⟩ := hof.element _ _ helement
    rw [GroupItem.words, ElementHead.source?, hreference]
    dsimp only
    rw [hdecl]
    exact .repetitions (.singleton (.element (.top _ helement hmeans))) _
  | .element hreference hname hitems htype => by
    rw [GroupItem.words, ElementHead.source?, hreference]
    exact .repetitions (.singleton (.element (.own hname hitems htype))) _
  | .named occurs hgroup => by
    have honce := hgroup.agrees hof
    rw [GroupItem.words, Particle.words, Group.words, Particle.wordsOfEach,
      Particle.wordsOfEach, Particle.words, Order.words, List.prod_singleton]
    exact honce.repetitions _
  | .group order _ hitems =>
      .repetitions (.order (hitems.agrees hof) order) _
  | .any occurs => .singleton (.any occurs)

theorem GroupItem.AllMean.agrees (hof : M.Of declarations)
    {items : List GroupItem} {ps : List Particle} :
    GroupItem.AllMean M items ps →
      List.Forall₂ (Agrees (Symbol.Rel (ElementSource.Fits M)))
        (GroupItem.wordsOfEach declarations counts (named declarations counts)
          items)
        (Particle.wordsOfEach counts ps)
  | .nil => .nil
  | .cons hitem hrest => .cons (hitem.agrees hof) (hrest.agrees hof)

theorem GroupItem.Named.agrees (hof : M.Of declarations) {name : String}
    {g : Group} : GroupItem.Named M name g →
      Agrees (Symbol.Rel (ElementSource.Fits M))
        (named declarations counts name)
        (Group.words counts g)
  | @GroupItem.Named.intro _ _ _ _ _ order occurs hgroup hitems => by
    rw [← groupWords_named, groupWords, ← hof.group, hgroup]
    exact .repetitions (.order (hitems.agrees hof) order) (counts occurs)

end

/-- Attributes alone leave the content as it is. -/
theorem ComplexItem.AllMean.content_eq {items : List ComplexItem}
    {t u : ComplexType} : ComplexItem.AllMean M items t u →
      items.filterMap ComplexItem.content? = [] → u.content = t.content
  | .nil _, _ => rfl
  | .cons hitem hrest, hnone => by
    cases hitem with
    | group => exact nomatch hnone
    | named => exact nomatch hnone
    | attributeUse => exact hrest.content_eq hnone

theorem ComplexItem.AllMean.agrees (hof : M.Of declarations)
    {items : List ComplexItem} {t u : ComplexType} {item : GroupItem} :
    ComplexItem.AllMean M items t u →
      items.filterMap ComplexItem.content? = [item] →
      ∃ g, u.content = some g ∧ Agrees (Symbol.Rel (ElementSource.Fits M))
        (item.words declarations counts (named declarations counts))
        (Group.words counts g)
  | .nil _, hone => nomatch hone
  | .cons hitem hrest, hone => by
    cases hitem with
    | group order occurs _ hitems =>
        obtain ⟨rfl, hnone⟩ := List.cons.inj hone
        have hmeans : GroupItem.Means M _ _ := .group order occurs hitems
        exact ⟨_, hrest.content_eq hnone, hmeans.agrees counts hof⟩
    | named occurs _ hgroup =>
        obtain ⟨rfl, hnone⟩ := List.cons.inj hone
        have hmeans : GroupItem.Means M _ _ := .named occurs hgroup
        exact ⟨_, hrest.content_eq hnone, hmeans.agrees counts hof⟩
    | attributeUse => exact hrest.agrees hof hone

end Meanings

/-- However bounds are read, the stored type has the same words as the declared
one, if that has no second content. -/
def SameContent (M : Meaning) (declarations : List TopLevel)
    (items : List ComplexItem) (t : ComplexType) : Prop :=
  (items.filterMap ComplexItem.content?).length ≤ 1 → ∀ counts,
    Agrees (Symbol.Rel (ElementSource.Fits M))
      (contentWords declarations counts items) (t.words counts)

theorem ComplexItem.AllMean.sameContent {declarations : List TopLevel}
    {M : Meaning} (hof : M.Of declarations) {items : List ComplexItem}
    {t : ComplexType} (hitems : ComplexItem.AllMean M items {} t) :
    SameContent M declarations items t := by
  intro hfew counts
  unfold contentWords ComplexType.words
  cases hcontent : items.filterMap ComplexItem.content? with
  | nil =>
      rw [hitems.content_eq hcontent]
      exact .one
  | cons item rest =>
      rw [hcontent, List.length_cons] at hfew
      obtain rfl : rest = [] := List.eq_nil_of_length_eq_zero (by omega)
      obtain ⟨g, hg, hagrees⟩ := hitems.agrees counts hof hcontent
      rw [hg]
      exact hagrees

/-- The last inline type of an element declaration is its type. -/
theorem ElementItem.AllMean.exists_complex {M : Meaning}
    {items : List ComplexItem} {elements : List ElementItem}
    {found result : Option TypeDef} :
    ElementItem.AllMean M elements found result →
      elements.getLast? = some (.complexType items) →
      ∃ t, result = some (.complex t) ∧ ComplexItem.AllMean M items {} t
  | .nil _, hlast => nomatch hlast
  | @ElementItem.AllMean.cons _ item [] _ _ _ hitem hrest, hlast => by
    obtain rfl : item = .complexType items := Option.some.inj hlast
    cases hitem with
    | complexType hitems =>
        cases hrest
        exact ⟨_, rfl, hitems⟩
  | @ElementItem.AllMean.cons _ _ (_ :: _) _ _ _ _ hrest, hlast =>
    hrest.exists_complex hlast

end Declaration

theorem Model.name_of_element? {m : Model} {name : String} {e : ElementDecl}
    (helement : m.element? name = some e) : e.name = name := by
  have hfound := List.find?_some helement
  exact eq_of_beq hfound

open Declaration in
/-- Behind the number stands a complex type with the content that is declared.
-/
def Model.HasContent (m : Model) (declarations : List TopLevel) (id : TypeId)
    (items : List ComplexItem) : Prop :=
  ∃ t, m.types[id]? = some (.complex t) ∧
    SameContent (m.meaning declarations) declarations items t

open Declaration in
/-- The stored content of all complex types is the declared one: of those with
names, and of the inline types of all elements, at the top level and in content.
-/
structure Model.KeepsContent (m : Model) (declarations : List TopLevel) :
    Prop where
  named : ∀ name items id,
    ((name, TypeContent.complex items), id) ∈ namedTypes declarations →
      m.HasContent declarations id items
  elements : ∀ name decl,
    (declarations.filterMap TopLevel.element?).lookup name = some decl →
      ∃ e, m.element? name = some e ∧
        (ElementSource.top name decl).Fits (m.meaning declarations) e
  inline : ∀ (source : ElementSource) decl items,
    source.Fits (m.meaning declarations) decl →
      source.inline? = some items → m.HasContent declarations decl.type items

namespace Declaration

section Finished

variable {declarations : List TopLevel} {m : Model}

/-- All top-level elements of the model are declared. -/
theorem exists_declaration (hmodel : toModel declarations = .ok m)
    {name : String} {e : ElementDecl} (helement : m.element? name = some e) :
    ∃ decl, (declarations.filterMap TopLevel.element?).lookup name =
      some decl := by
  obtain ⟨c, b, hcollected, hrun, rfl⟩ := toModel_eq_ok_iff.mp hmodel
  have hholds := Collection.holds_ofTopLevel hcollected
  obtain ⟨-, -, hstands⟩ := sound_build hholds hrun
  have hnames : b.model.elements.map (·.name) =
      c.directory.elements.map (·.1) := by
    rw [← List.forall₂_eq_eq_eq, List.forall₂_map_left_iff,
      List.forall₂_map_right_iff]
    exact hstands.flip.imp fun _ _ hstand => hstand.1
  have hin : name ∈ c.directory.elements.map (·.1) := by
    rw [← hnames, ← Model.name_of_element? helement]
    exact List.mem_map_of_mem (List.mem_of_find?_eq_some helement)
  rw [hholds.elements, ← lookup_isSome_iff_mem] at hin
  exact Option.isSome_iff_exists.mp hin

theorem meaning_of (hmodel : toModel declarations = .ok m)
    (hgroups : (groupNames declarations).Nodup) :
    (m.meaning declarations).Of declarations where
  group name := lookup_perm (List.reverse_perm _).symm hgroups name
  element name id helement := by
    obtain ⟨e, he, rfl⟩ := Option.map_eq_some_iff.mp helement
    obtain ⟨decl, hdecl⟩ := exists_declaration hmodel he
    obtain ⟨e', he', hmeans⟩ := (toModel_means hmodel).2 name decl hdecl
    cases he.symm.trans he'
    exact ⟨decl, hdecl, hmeans⟩

/-- Inlining groups and references keeps the words of all content.  It is enough
that no two groups share a name: of types and elements that do, the conversion
takes the same one everywhere. -/
theorem toModel_keepsContent (hmodel : toModel declarations = .ok m)
    (hgroups : (groupNames declarations).Nodup) :
    m.KeepsContent declarations := by
  have hof := meaning_of hmodel hgroups
  obtain ⟨htypes, helements⟩ := toModel_means hmodel
  refine ⟨fun name items id ht => ?_, fun name decl hdecl => ?_,
    fun source decl items hfits hinline => ?_⟩
  · obtain ⟨d, hget, hmeans⟩ := htypes _ ht
    cases hmeans with
    | complex hitems => exact ⟨_, hget, hitems.sameContent hof⟩
  · obtain ⟨⟨name', type, occurs⟩, he, hmeans⟩ := helements name decl hdecl
    obtain rfl : name' = name := Model.name_of_element? he
    exact ⟨_, he, .top occurs (congrArg _ he) hmeans⟩
  · cases hfits with
    | own hname hitems htype =>
        obtain ⟨t, rfl, hcontent⟩ :=
          hitems.exists_complex (ElementSource.inline?_eq_some_iff.mp hinline)
        generalize ElementHead.type _ = type at htype
        cases htype with
        | inline hget => exact ⟨t, hget, hcontent.sameContent hof⟩
    | top occurs helement hmeans =>
        have hlast := ElementSource.inline?_eq_some_iff.mp hinline
        cases hmeans with
        | named htype hnone hid =>
            rw [ElementSource.items, hnone] at hlast
            exact nomatch hlast
        | inline htype hitems hget =>
            obtain ⟨t, rfl, hcontent⟩ := hitems.exists_complex hlast
            exact ⟨t, hget, hcontent.sameContent hof⟩

end Finished

namespace InliningWitness

def reference (name : String) (occurs : Occurs) : GroupItem :=
  .element ⟨none, some name, none, occurs, false, false⟩ []

/-- The start tag of an element with a name, and with the name of a type or
without. -/
def head (name : String) (type : Option String) : ElementHead :=
  ⟨some name, none, type, {}, false, false⟩

/-- A group of pairs, which refers to another group, is used with several bounds
and beside an inline type that uses the other group as well. -/
def pairs : List TopLevel :=
  [.group (some "pair")
    [.group .sequence {} [reference "left" {}, reference "right" ⟨0, some 1⟩]],
    .group (some "pairs")
      [.group .choice {} [.reference (some "pair") ⟨2, some 3⟩,
        .any ⟨0, none⟩]],
    .complexType (some "Pairs")
      [.group .sequence {} [.reference (some "pairs") ⟨0, none⟩,
        reference "left" ⟨1, some 2⟩,
        .element (head "last" none)
          [.complexType [.reference (some "pair") {}]]]],
    .element (head "left" (some "string")) [],
    .element (head "right" none)
      [.complexType [.group .all {} [reference "left" {}]]]]

theorem pairs_inlined : ∃ m, toModel pairs = .ok m ∧
    (groupNames pairs).Nodup ∧ m.KeepsContent pairs := by
  have hgroups : (groupNames pairs).Nodup := by decide
  have hsome : (toModel pairs).toOption.isSome := by decide +kernel
  obtain ⟨m, hmodel⟩ := exists_ok_of_isSome hsome
  exact ⟨m, hmodel, hgroups, toModel_keepsContent hmodel hgroups⟩

end InliningWitness

end Declaration

end Specimen
