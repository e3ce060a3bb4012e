/-
Chains of references come to an end.  A group is not expanded inside itself, and
an element with an inline type is not built twice, so only elements that have a
named type and an inline one besides can lead back to themselves for ever.  If
none of them does, the bound on chains of references is never met: every greater
bound gives the same.
-/
import Mathlib.Data.Finset.Card
import Mathlib.Logic.Relation
import Specimen.Proofs.Alongside
import Specimen.Proofs.ConversionRuns

namespace Specimen

namespace Declaration

section Remaining

variable {names done : List String} {name : String}

/-- How many of the names are not done yet. -/
def remaining (names done : List String) : Nat :=
  (names.toFinset.filter (· ∉ done)).card

theorem remaining_le (names done : List String) :
    remaining names done ≤ names.length :=
  (Finset.card_filter_le _ _).trans (List.toFinset_card_le names)

theorem filter_cons_subset :
    names.toFinset.filter (· ∉ name :: done) ⊆
      names.toFinset.filter (· ∉ done) := by
  intro other hother
  simp only [Finset.mem_filter, List.mem_cons, not_or] at hother ⊢
  exact ⟨hother.1, hother.2.2⟩

theorem remaining_cons_le :
    remaining names (name :: done) ≤ remaining names done :=
  Finset.card_le_card filter_cons_subset

theorem remaining_cons_lt (hname : name ∈ names) (hnew : name ∉ done) :
    remaining names (name :: done) < remaining names done := by
  apply Finset.card_lt_card
  rw [Finset.ssubset_iff_of_subset filter_cons_subset]
  exact ⟨name, by simp [hname, hnew], by simp⟩

end Remaining

namespace Directory

variable (D : Directory)

def groupNames : List String := D.groups.map (·.1)

def elementNames : List String := D.elements.map (·.1)

def HasNamedType (name : String) : Prop :=
  ∃ decl, D.elements.lookup name = some decl ∧ decl.head.type.isSome

/-- An element with a named type refers to another one from what is written
inside its declaration, which is not by way of a named group. -/
def Refers (name other : String) : Prop :=
  (∃ decl, D.elements.lookup name = some decl ∧ decl.head.type.isSome ∧
    .element other ∈ targetsInElement decl.items) ∧ D.HasNamedType other

/-- What is declared of a group or an element refers to another one. -/
def Contains : Target → Target → Prop
  | .group name, target =>
    ∃ items, D.groups.lookup name = some items ∧ target ∈ targetsInGroup items
  | .element name, target =>
    ∃ decl, D.elements.lookup name = some decl ∧
      target ∈ targetsInElement decl.items

/-- There is a reason for the error: no bound is met, and a group that seems to
contain itself leads back to itself. -/
def Justifies : DeclarationError → Prop
  | .endless _ => False
  | .groupInItself name =>
    Relation.TransGen D.Contains (.group name) (.group name)
  | _ => True

theorem justifies_of_ordinary {e : DeclarationError} (hordinary : e.Ordinary) :
    D.Justifies e := by
  cases e <;> trivial

/-- How many top-level elements have no type yet. -/
def untouched (b : Builder) : Nat :=
  remaining D.elementNames (b.elementTypes.map (·.1))

/-- A bound on the references that may still be followed into one another: the
groups that are not being expanded and the elements without type, and between
two of them the elements that are not on the path from the last one. -/
def room (expanding path : List String) (untouched : Nat) : Nat :=
  (remaining D.groupNames expanding + untouched) * (D.elements.length + 1) +
    remaining D.elementNames path

/-- The comparison of a conversion with itself under two bounds: the results are
equal, and there are reasons for errors.  Elements only get types. -/
def boundless : Comparison Nat where
  later left left' := left' ≤ left
  holds left s t := s = t ∧ D.untouched s ≤ left
  same _ := Eq
  firstMay _ := False
  secondMay _ := False
  bothMay e e' := e = e' ∧ D.Justifies e
  later_refl _ := le_rfl
  later_trans hlater hlater' := hlater'.trans hlater
  same_later _ hsame := hsame
  bothMay_self hordinary := ⟨rfl, D.justifies_of_ordinary hordinary⟩

variable {D}

/-- A step that leaves the types of elements as they are. -/
theorem alongside_keeps {α : Type} {x : Conversion α} {left : Nat}
    (hok : ∀ s a s', x.run s = .ok (a, s') →
      s'.elementTypes = s.elementTypes)
    (herror : ∀ s e, x.run s = .error e → e.Ordinary) :
    D.boundless.Alongside left (fun _ => Eq) x x := by
  rintro s _ ⟨rfl, hleft⟩
  cases hrun : x.run s with
  | ok result =>
      obtain ⟨a, s'⟩ := result
      have hleft' : D.untouched s' ≤ left := by
        rw [untouched, hok s a s' hrun]
        exact hleft
      exact .ok left le_rfl ⟨rfl, hleft'⟩ rfl
  | error e =>
      exact .both ⟨rfl, D.justifies_of_ordinary (herror s e hrun)⟩

theorem alongside_builtin (left : Nat) (name : String) :
    D.boundless.Alongside left (fun _ => Eq) (Conversion.builtin name)
      (Conversion.builtin name) := by
  apply alongside_keeps
  · intro s id s' hrun
    rw [Conversion.run_builtin] at hrun
    split at hrun <;> cases hrun
    rfl
  · intro s e hrun
    rw [Conversion.run_builtin] at hrun
    split at hrun <;> cases hrun
    trivial

theorem boundless_supports : D.boundless.Supports D D where
  add left d d' hlinked := by
    rw [TypeDef.Linked.eq hlinked]
    apply alongside_keeps
    · intro s id s' hrun
      cases hrun
      rfl
    · nofun
  builtin := alongside_builtin
  type left name := by
    unfold Conversion.type
    split
    · exact .of_pure rfl
    · exact alongside_builtin left name
  refer left name := by
    have hkeeps : D.boundless.Alongside left (fun _ => Eq)
        (Conversion.refer name) (Conversion.refer name) := by
      apply alongside_keeps
      · intro s _ s' hrun
        cases hrun
        rfl
      · nofun
    exact hkeeps.mono fun _ _ _ _ _ => trivial

/-- Definitions that are given behind linked conversions are the same. -/
theorem alongside_define (left : Nat) (id : TypeId) (d : TypeDef) :
    D.boundless.Alongside left (fun _ _ _ => True) (Conversion.define id d)
      (Conversion.define id d) := by
  have hkeeps : D.boundless.Alongside left (fun _ => Eq)
      (Conversion.define id d) (Conversion.define id d) := by
    apply alongside_keeps
    · intro s _ s' hrun
      cases hrun
      rfl
    · nofun
  exact hkeeps.mono fun _ _ _ _ _ => trivial

theorem alongside_note (left : Nat) (name : String) (id : TypeId) :
    D.boundless.Alongside left (fun _ _ _ => True) (Conversion.note name id)
      (Conversion.note name id) := by
  rintro s _ ⟨rfl, hleft⟩
  exact .ok left le_rfl ⟨rfl, remaining_cons_le.trans hleft⟩ trivial

section Following

variable {references references' : References} {expanding : List String}
  {left : Nat} {targets : Target → Prop}

theorem alongside_namedType
    (hfollow : Follow D.boundless references references' expanding expanding
      left targets) (name type : String) (items : List ElementItem)
    (htargets : ∀ target ∈ targetsInElement items, targets target) :
    D.boundless.Alongside left (fun _ => Eq)
      (namedType D references expanding name type items)
      (namedType D references' expanding name type items) := by
  unfold namedType
  apply (alongside_elementItems boundless_supports hfollow items .none le_rfl
    htargets).bind
  intro left₁ _ inline inline' hinline
  cases hinline with
  | some _ => exact .of_throw trivial
  | none =>
      apply (boundless_supports.type left₁ type).bind
      rintro left₂ _ id _ rfl
      apply (alongside_note left₂ name id).bind
      intro left₃ _ _ _ _
      exact .of_pure rfl

theorem alongside_filledType
    (hfollow : Follow D.boundless references references' expanding expanding
      left targets) (id : TypeId) (items : List ElementItem)
    (htargets : ∀ target ∈ targetsInElement items, targets target) :
    D.boundless.Alongside left (fun _ => Eq)
      (filledType D references expanding id items)
      (filledType D references' expanding id items) := by
  unfold filledType
  apply (alongside_elementItems boundless_supports hfollow items .none le_rfl
    htargets).bind
  intro left₁ _ inline inline' hinline
  have hdefine : D.boundless.Alongside left₁ (fun _ _ _ => True)
      (inline.forM (Conversion.define id))
      (inline'.forM (Conversion.define id)) := by
    cases hinline with
    | none => exact .of_pure trivial
    | some hlinked =>
        rw [TypeDef.Linked.eq hlinked]
        exact alongside_define left₁ id _
  apply hdefine.bind
  intro left₂ _ _ _ _
  exact .of_pure rfl

/-- A top-level element is built alongside itself if what it refers to is
followed so, where an inline type is built with one element less to come. -/
theorem alongside_topLevelType {name : String} (hname : name ∈ D.elementNames)
    (decl : ElementDeclaration)
    (hnamed : decl.head.type.isSome →
      Follow D.boundless references references' expanding expanding left
        (· ∈ targetsInElement decl.items))
    (hinline : ∀ left', left' < left →
      Follow D.boundless references references' expanding expanding left'
        (· ∈ targetsInElement decl.items)) :
    D.boundless.Alongside left (fun _ => Eq)
      (topLevelType D references expanding name decl)
      (topLevelType D references' expanding name decl) := by
  rintro s _ ⟨rfl, hleft⟩
  cases hlookup : s.elementTypes.lookup name with
  | some id =>
      rw [run_topLevelType_of_some _ _ _ hlookup,
        run_topLevelType_of_some _ _ _ hlookup]
      exact .ok left le_rfl ⟨rfl, hleft⟩ rfl
  | none =>
      rw [run_topLevelType_of_none _ _ _ hlookup,
        run_topLevelType_of_none _ _ _ hlookup]
      cases htype : decl.head.type with
      | some type =>
          have hfollow := hnamed (by rw [htype]; rfl)
          exact alongside_namedType hfollow name type decl.items
            (fun _ hmem => hmem) s s ⟨rfl, hleft⟩
      | none =>
          have hfewer := remaining_cons_lt hname
            (not_mem_keys_of_lookup hlookup)
          have hless : D.untouched s - 1 < left := by
            unfold untouched at hleft ⊢
            omega
          dsimp only
          rw [run_inlineType, run_inlineType]
          refine (alongside_filledType (hinline _ hless) _ decl.items
            (fun _ hmem => hmem) _ _ ⟨rfl, ?_⟩).of_later hless.le
          unfold untouched
          exact Nat.le_sub_one_of_lt hfewer

end Following

/-- No element refers to itself in the end. -/
def Unentangled (D : Directory) : Prop :=
  ∀ name, ¬ Relation.TransGen D.Refers name name

/-- What is on the path refers to every element with a named type that may come
next. -/
def Leads (D : Directory) (path : List String) (targets : Target → Prop) :
    Prop :=
  ∀ name, targets (.element name) → D.HasNamedType name → ∀ earlier ∈ path,
    Relation.TransGen D.Refers earlier name

/-- The groups that are being expanded lead to all that may come next. -/
def Encloses (D : Directory) (expanding : List String)
    (targets : Target → Prop) : Prop :=
  ∀ target, targets target → ∀ group ∈ expanding,
    Relation.TransGen D.Contains (.group group) target

theorem room_group_lt {expanding path : List String} {left left' : Nat}
    {name : String} (hname : name ∈ D.groupNames) (hnew : name ∉ expanding)
    (hleft : left' ≤ left) :
    D.room (name :: expanding) [] left' < D.room expanding path left := by
  have hfewer := remaining_cons_lt hname hnew
  have hpath : remaining D.elementNames [] ≤ D.elements.length := by
    simpa [elementNames] using remaining_le D.elementNames []
  have hmul := Nat.mul_le_mul_right (D.elements.length + 1)
    (show remaining D.groupNames (name :: expanding) + left' + 1 ≤
      remaining D.groupNames expanding + left by omega)
  rw [Nat.succ_mul] at hmul
  unfold room
  omega

theorem room_inline_lt {expanding path : List String} {left left' : Nat}
    (hleft : left' < left) :
    D.room expanding [] left' < D.room expanding path left := by
  have hpath : remaining D.elementNames [] ≤ D.elements.length := by
    simpa [elementNames] using remaining_le D.elementNames []
  have hmul := Nat.mul_le_mul_right (D.elements.length + 1)
    (show remaining D.groupNames expanding + left' + 1 ≤
      remaining D.groupNames expanding + left by omega)
  rw [Nat.succ_mul] at hmul
  unfold room
  omega

theorem room_named_lt {expanding path : List String} {left left' : Nat}
    {name : String} (hname : name ∈ D.elementNames) (hnew : name ∉ path)
    (hleft : left' ≤ left) :
    D.room expanding (name :: path) left' < D.room expanding path left := by
  have hfewer := remaining_cons_lt hname hnew
  have hmul := Nat.mul_le_mul_right (D.elements.length + 1)
    (show remaining D.groupNames expanding + left' ≤
      remaining D.groupNames expanding + left by omega)
  unfold room
  omega

theorem leads_nil (targets : Target → Prop) : D.Leads [] targets :=
  fun _ _ _ _ hearlier => absurd hearlier List.not_mem_nil

theorem encloses_nil (targets : Target → Prop) : D.Encloses [] targets :=
  fun _ _ _ hgroup => absurd hgroup List.not_mem_nil

/-- What is enclosed encloses what it contains. -/
theorem Encloses.step {expanding : List String} {targets : Target → Prop}
    (hencloses : D.Encloses expanding targets) {target : Target}
    (htarget : targets target) : D.Encloses expanding (D.Contains target) :=
  fun _ hcontains group hgroup =>
    (hencloses target htarget group hgroup).tail hcontains

theorem Encloses.cons {expanding : List String} {targets : Target → Prop}
    (hencloses : D.Encloses expanding targets) {name : String}
    (htarget : targets (.group name)) :
    D.Encloses (name :: expanding) (D.Contains (.group name)) := by
  intro target hcontains group hgroup
  rcases List.mem_cons.mp hgroup with rfl | hgroup
  · exact .single hcontains
  · exact hencloses.step htarget target hcontains group hgroup

/-- As long as there is room for it, references are followed without meeting
either bound. -/
theorem follow_within (hunentangled : D.Unentangled) (depth depth' : Nat)
    {expanding path : List String} {left : Nat} {targets : Target → Prop}
    (hroom : D.room expanding path left < depth)
    (hroom' : D.room expanding path left < depth')
    (hleads : D.Leads path targets)
    (hencloses : D.Encloses expanding targets) :
    Follow D.boundless (References.within D depth) (References.within D depth')
      expanding expanding left targets := by
  induction depth generalizing depth' expanding path left targets with
  | zero => omega
  | succ depth ih =>
      obtain _ | depth' := depth'
      · omega
      have hfollow {expanding' path' : List String} {left' : Nat}
          {targets' : Target → Prop}
          (hless : D.room expanding' path' left' < D.room expanding path left)
          (hleads' : D.Leads path' targets')
          (hencloses' : D.Encloses expanding' targets') :
          Follow D.boundless (References.within D depth)
            (References.within D depth') expanding' expanding' left' targets' :=
        ih depth' (lt_of_lt_of_le hless (by omega))
          (lt_of_lt_of_le hless (by omega)) hleads' hencloses'
      constructor
      · intro left' hleft name hname
        change D.boundless.Alongside left' _
          (namedGroup D (References.within D depth) expanding name)
          (namedGroup D (References.within D depth') expanding name)
        unfold namedGroup
        split
        · rename_i hopen
          exact .of_both ⟨rfl, hencloses _ hname name (by simpa using hopen)⟩
        · rename_i hnew
          cases hlookup : D.groups.lookup name with
          | none => exact .of_throw trivial
          | some items =>
              have hmem : name ∈ D.groupNames := mem_keys_of_lookup hlookup
              have hless : D.room (name :: expanding) [] left' <
                  D.room expanding path left :=
                room_group_lt hmem (by simpa using hnew) hleft
              exact alongside_groupContent boundless_supports
                (hfollow hless (leads_nil _) (hencloses.cons hname)) name items
                fun _ hmem => ⟨items, hlookup, hmem⟩
      · intro left' hleft name hname
        change D.boundless.Alongside left' _
          (namedElement D (References.within D depth) expanding name)
          (namedElement D (References.within D depth') expanding name)
        unfold namedElement
        cases hlookup : D.elements.lookup name with
        | none => exact .of_throw trivial
        | some decl =>
            have hmem : name ∈ D.elementNames := mem_keys_of_lookup hlookup
            have hinner : D.Encloses expanding
                (· ∈ targetsInElement decl.items) := fun target hmem =>
              hencloses.step hname target ⟨decl, hlookup, hmem⟩
            apply alongside_topLevelType hmem decl
            · intro htype
              have hnamed : D.HasNamedType name := ⟨decl, hlookup, htype⟩
              have hnew : name ∉ path := fun hpath =>
                hunentangled name (hleads name hname hnamed name hpath)
              refine hfollow (room_named_lt hmem hnew hleft) ?_ hinner
              intro other hother hother' earlier hearlier
              have hrefers : D.Refers name other :=
                ⟨⟨decl, hlookup, htype, hother⟩, hother'⟩
              rcases List.mem_cons.mp hearlier with rfl | hearlier
              · exact .single hrefers
              · exact (hleads name hname hnamed earlier hearlier).tail hrefers
            · intro left'' hless
              exact hfollow (room_inline_lt (hless.trans_le hleft))
                (leads_nil _) hinner

end Directory

namespace Collection

variable {c : Collection}

theorem room_lt_depth {left : Nat}
    (hleft : left ≤ c.directory.elements.length) :
    c.directory.room [] [] left < c.directory.depth := by
  have hgroups : remaining c.directory.groupNames [] ≤
      c.directory.groups.length := by
    simpa [Directory.groupNames] using remaining_le c.directory.groupNames []
  have helements : remaining c.directory.elementNames [] ≤
      c.directory.elements.length := by
    simpa [Directory.elementNames] using
      remaining_le c.directory.elementNames []
  have hmul := Nat.mul_le_mul_right (c.directory.elements.length + 1)
    (show remaining c.directory.groupNames [] + left ≤
      c.directory.groups.length + c.directory.elements.length by omega)
  unfold Directory.room Directory.depth
  rw [Nat.succ_mul]
  omega

theorem alongside_build (hunentangled : c.directory.Unentangled)
    {depth depth' : Nat} (hdepth : c.directory.depth ≤ depth)
    (hdepth' : c.directory.depth ≤ depth') {left : Nat}
    (hleft : left ≤ c.directory.elements.length) :
    c.directory.boundless.Alongside left (fun _ _ _ => True)
      (c.build (References.within c.directory depth))
      (c.build (References.within c.directory depth')) := by
  have hfollow {left' : Nat} (hleft' : left' ≤ left)
      (targets : Target → Prop) :
      Follow c.directory.boundless (References.within c.directory depth)
        (References.within c.directory depth') [] [] left' targets := by
    have hroom := room_lt_depth (hleft'.trans hleft)
    exact Directory.follow_within hunentangled depth depth'
      (hroom.trans_le hdepth) (hroom.trans_le hdepth')
      (Directory.leads_nil targets) (Directory.encloses_nil targets)
  unfold build
  have hsimple : c.directory.boundless.Alongside left (fun _ _ _ => True)
      (defineSimple c.directory c.simpleTypes)
      (defineSimple c.directory c.simpleTypes) := by
    apply Comparison.Alongside.forM
    rintro left' _ ⟨id, items⟩ _
    apply (alongside_simpleType Directory.boundless_supports items).bind
    intro left'' _ d d' hlinked
    rw [TypeDef.Linked.eq hlinked]
    exact Directory.alongside_define left'' id d'
  apply hsimple.bind
  intro left₁ hleft₁ _ _ _
  have hcomplex : c.directory.boundless.Alongside left₁ (fun _ _ _ => True)
      (defineComplex c.directory (References.within c.directory depth)
        c.complexTypes)
      (defineComplex c.directory (References.within c.directory depth')
        c.complexTypes) := by
    apply Comparison.Alongside.forM
    rintro left' hleft' ⟨id, items⟩ _
    apply (alongside_complexItems Directory.boundless_supports
      (hfollow (hleft'.trans hleft₁) fun _ => True) items (.intro .none .nil)
      le_rfl fun _ _ => trivial).bind
    intro left'' _ t u hlinked
    rw [ComplexType.Linked.eq hlinked]
    exact Directory.alongside_define left'' id _
  apply hcomplex.bind
  intro left₂ hleft₂ _ _ _
  apply Comparison.Alongside.forM
  rintro left' hleft' ⟨name, decl⟩ hmem
  apply (alongside_checkHead decl.head name).bind
  intro left'' hleft'' _ _ _
  have hleft : left'' ≤ left :=
    hleft''.trans (hleft'.trans (hleft₂.trans hleft₁))
  apply (Directory.alongside_topLevelType
    (List.mem_map.mpr ⟨_, hmem, rfl⟩) decl (fun _ => hfollow hleft _)
    fun _ hless => hfollow (hless.le.trans hleft) _).bind
  rintro left₃ _ id _ rfl s _ ⟨rfl, hleft₃⟩
  exact .ok left₃ le_rfl ⟨rfl, hleft₃⟩ trivial

/-- Where no element with a named type leads back to itself, conversion has the
same end under every bound that leaves room for all chains of references, and
there is a reason for a failure. -/
theorem toModel_of_depth_le (hunentangled : c.directory.Unentangled)
    {depth : Nat} (hdepth : c.directory.depth ≤ depth) :
    c.toModel depth = c.toModel c.directory.depth ∧
      ∀ e, c.toModel depth = .error e → c.directory.Justifies e := by
  have houtcome := alongside_build hunentangled hdepth le_rfl
    (show c.directory.untouched { model := c.model } ≤ _ by
      simpa [Directory.untouched, Directory.elementNames] using
        remaining_le c.directory.elementNames []) { model := c.model } _
    ⟨rfl, le_rfl⟩
  unfold toModel
  generalize StateT.run (c.build (References.within c.directory depth))
    _ = first at houtcome ⊢
  generalize StateT.run (c.build _) _ = second at houtcome ⊢
  cases houtcome with
  | ok left hlater hholds _ =>
      obtain ⟨rfl, -⟩ := hholds
      exact ⟨rfl, nofun⟩
  | both hmay =>
      obtain ⟨rfl, hjustifies⟩ := hmay
      refine ⟨rfl, ?_⟩
      rintro _ ⟨⟩
      exact hjustifies
  | first hmay => exact hmay.elim
  | second hmay => exact hmay.elim

theorem add_ne_endless (c : Collection) (declaration : TopLevel)
    (name : String) : c.add declaration ≠ .error (.endless name) := by
  cases declaration with
  | simpleType name items => cases name <;> rintro ⟨⟩
  | complexType name items => cases name <;> rintro ⟨⟩
  | group name items => cases name <;> rintro ⟨⟩
  | element head items =>
      simp only [add]
      split <;> rintro ⟨⟩
  | unsupported construct => rintro ⟨⟩

theorem foldlM_add_ne_endless (declarations : List TopLevel) (c : Collection)
    (name : String) : declarations.foldlM add c ≠ .error (.endless name) := by
  induction declarations generalizing c with
  | nil => nofun
  | cons declaration declarations ih =>
      rw [List.foldlM_cons]
      cases hadd : c.add declaration with
      | error e =>
          rintro ⟨rfl⟩
          exact add_ne_endless c declaration name hadd
      | ok c' => exact ih c'

theorem ofTopLevel_ne_endless (declarations : List TopLevel) (name : String) :
    ofTopLevel declarations ≠ .error (.endless name) :=
  foldlM_add_ne_endless declarations {} name

end Collection

/-- Conversion of declarations ends, with a model or with an error of its own,
if no element that has a named type and an inline one leads back to itself: no
bound on chains of references that is great enough to begin with makes any
difference. -/
theorem conversion_ends (declarations : List TopLevel)
    (hunentangled : ∀ c, Collection.ofTopLevel declarations = .ok c →
      c.directory.Unentangled) :
    (∀ name, toModel declarations ≠ .error (.endless name)) ∧
      ∀ c, Collection.ofTopLevel declarations = .ok c →
        ∀ depth, c.directory.depth ≤ depth →
          c.toModel depth = toModel declarations := by
  unfold toModel
  cases hcollected : Collection.ofTopLevel declarations with
  | error e =>
      refine ⟨fun name hends => ?_, nofun⟩
      cases hends
      exact Collection.ofTopLevel_ne_endless declarations name hcollected
  | ok c =>
      have hsame (depth : Nat) (hdepth : c.directory.depth ≤ depth) :=
        Collection.toModel_of_depth_le (hunentangled c hcollected) hdepth
      refine ⟨fun name =>
        (hsame c.directory.depth le_rfl).2 (.endless name), ?_⟩
      rintro _ ⟨rfl⟩ depth hdepth
      exact (hsame depth hdepth).1

namespace ChainWitness

def child (name : String) : GroupItem :=
  .element ⟨none, some name, none, {}, false, false⟩ []

/-- The inline type of an element: a sequence of one child. -/
def containing (name : String) : List ElementItem :=
  [.complexType [.group .sequence {} [child name]]]

def tag (name : String) (type : Option String) : ElementHead :=
  ⟨some name, none, type, {}, false, false⟩

/-- A tree contains itself by way of a group, and a branch, which has two types,
refers to a leaf. -/
def grove : List TopLevel :=
  [.group (some "trees") [.group .sequence {} [child "tree"]],
    .element (tag "tree" none) [.complexType [.reference (some "trees") {}]],
    .element (tag "branch" (some "string")) (containing "leaf"),
    .element (tag "leaf" (some "string")) []]

def groveDirectory : Directory where
  groups := [("trees", [.group .sequence {} [child "tree"]])]
  elements :=
    [("tree", ⟨tag "tree" none, [.complexType [.reference (some "trees") {}]]⟩),
      ("branch", ⟨tag "branch" (some "string"), containing "leaf"⟩),
      ("leaf", ⟨tag "leaf" (some "string"), []⟩)]

theorem grove_collected :
    Collection.ofTopLevel grove = .ok { directory := groveDirectory } := rfl

theorem refers_grove {name other : String}
    (hrefers : groveDirectory.Refers name other) :
    name = "branch" ∧ other = "leaf" := by
  obtain ⟨⟨decl, hlookup, htyped, hother⟩, -⟩ := hrefers
  obtain ⟨front, back, helements, -⟩ := List.lookup_eq_some_iff.mp hlookup
  have hmem : (name, decl) ∈ groveDirectory.elements := by
    rw [helements]
    simp
  simp only [groveDirectory, List.mem_cons, List.not_mem_nil, or_false,
    Prod.mk.injEq] at hmem
  rcases hmem with ⟨-, rfl⟩ | ⟨rfl, rfl⟩ | ⟨-, rfl⟩
  · cases htyped
  · exact ⟨rfl, Target.element.inj (List.mem_singleton.mp hother)⟩
  · cases hother

theorem grove_unentangled : groveDirectory.Unentangled := by
  have hleads {name other : String}
      (htrans : Relation.TransGen groveDirectory.Refers name other) :
      name = "branch" ∧ other = "leaf" := by
    induction htrans with
    | single hrefers => exact refers_grove hrefers
    | tail _ hrefers ih =>
        obtain ⟨hbranch, -⟩ := refers_grove hrefers
        exact absurd (ih.2.symm.trans hbranch) (by decide)
  intro name htrans
  obtain ⟨hbranch, hleaf⟩ := hleads htrans
  exact absurd (hbranch.symm.trans hleaf) (by decide)

/-- The conversion of the grove ends, in the error that a branch has two types.
-/
theorem grove_ends :
    (∀ c, Collection.ofTopLevel grove = .ok c → c.directory.Unentangled) ∧
      (∃ name, groveDirectory.Refers "branch" name) ∧
      (∀ name, toModel grove ≠ .error (.endless name)) ∧
      (match toModel grove with
        | .ok _ => none
        | .error e => some e) = some (.typeTwice "branch") := by
  have hunentangled : ∀ c, Collection.ofTopLevel grove = .ok c →
      c.directory.Unentangled := by
    rw [grove_collected]
    rintro _ ⟨rfl⟩
    exact grove_unentangled
  refine ⟨hunentangled, ⟨"leaf", ?_⟩, (conversion_ends grove hunentangled).1,
    by decide +kernel⟩
  exact ⟨⟨_, rfl, rfl, List.mem_singleton.mpr rfl⟩, _, rfl, rfl⟩

/-- An element that has two types and contains itself. -/
def knot : List TopLevel :=
  [.element (tag "a" (some "string")) (containing "a")]

def knotDirectory : Directory where
  elements := [("a", ⟨tag "a" (some "string"), containing "a"⟩)]

theorem knot_collected :
    Collection.ofTopLevel knot = .ok { directory := knotDirectory } := rfl

theorem run_topLevelType_knot (references : References) {b : Builder}
    (hnew : b.elementTypes.lookup "a" = none)
    (hends : (references.element [] "a").run b = .error (.endless "a")) :
    (topLevelType knotDirectory references [] "a"
      ⟨tag "a" (some "string"), containing "a"⟩).run b =
        .error (.endless "a") := by
  have hitem : (groupItem knotDirectory references [] (child "a")).run b =
      .error (.endless "a") := by
    rw [child, groupItem]
    exact (Conversion.run_bind_of_ok rfl).trans
      (Conversion.run_bind_of_error hends)
  have hgroup : (groupItems knotDirectory references [] [child "a"]).run b =
      .error (.endless "a") := by
    rw [groupItems]
    exact Conversion.run_bind_of_error hitem
  have htype : (complexItems knotDirectory references []
      [.group .sequence {} [child "a"]] {}).run b = .error (.endless "a") := by
    rw [complexItems, complexItem]
    exact Conversion.run_bind_of_error (Conversion.run_bind_of_error hgroup)
  have hitems : (elementItems knotDirectory references [] (containing "a")
      none).run b = .error (.endless "a") := by
    rw [containing, elementItems, elementItem]
    exact Conversion.run_bind_of_error (Conversion.run_bind_of_error htype)
  rw [run_topLevelType_of_none _ _ _ hnew]
  exact Conversion.run_bind_of_error hitems

theorem knot_followed (depth : Nat) {b : Builder}
    (hnew : b.elementTypes.lookup "a" = none) :
    ((References.within knotDirectory depth).element [] "a").run b =
      .error (.endless "a") := by
  induction depth with
  | zero => rfl
  | succ depth ih => exact run_topLevelType_knot _ hnew ih

/-- No bound is great enough for it. -/
theorem knot_endless :
    Collection.ofTopLevel knot = .ok { directory := knotDirectory } ∧
      ∀ depth, Collection.toModel { directory := knotDirectory } depth =
        .error (.endless "a") := by
  refine ⟨knot_collected, fun depth => ?_⟩
  have hends := run_topLevelType_knot (b := {model := {}})
    (References.within knotDirectory depth) rfl (knot_followed depth rfl)
  have hadd : (addElements knotDirectory
      (References.within knotDirectory depth)).run { model := {} } =
        .error (.endless "a") :=
    Conversion.run_bind_of_error ((Conversion.run_bind_of_ok rfl).trans
      (Conversion.run_bind_of_error hends))
  have hbuild : (Collection.build { directory := knotDirectory }
      (References.within knotDirectory depth)).run { model := {} } =
        .error (.endless "a") :=
    (Conversion.run_bind_of_ok rfl).trans
      ((Conversion.run_bind_of_ok rfl).trans hadd)
  simp only [Collection.toModel, hbuild]
  rfl

end ChainWitness

end Declaration

end Specimen
