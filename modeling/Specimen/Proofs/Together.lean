/-
What owners are converted to together, each when it is first met, is what they
are converted to alone.  The conversion of one owner that goes on alone is
compared with its part in a conversion that may build other owners in between.
-/
import Specimen.Proofs.Alone
import Specimen.Proofs.Alongside
import Specimen.Proofs.Tracked

namespace Specimen

namespace Declaration

open Builder

/-- A type of an owner that is converted alone, and the one of the same origin.
-/
def SameOrigin (D : Directory) (owner : Owner) (s : Builder)
    (origins : List Origin) (i j : TypeId) : Prop :=
  i < s.model.types.length ∧ origins[j]? = some (D.originIn owner s.model i)

/-- What an owner is converted to alone is there. -/
structure Covers (D : Directory) (owner : Owner) (s : Builder)
    (origins : List Origin) (t : Builder) : Prop where
  builtin : ∀ name, (s.model.builtins.lookup name).isSome →
    .builtin name ∈ origins
  inline : ∀ i d, s.model.types[i]? = some d →
    D.originIn owner s.model i = .inline owner i →
      ∃ (j : TypeId) (d' : TypeDef), origins[j]? = some (.inline owner i) ∧
        t.model.types[j]? = some d' ∧
          d.Linked (SameOrigin D owner s origins) d'
  references : ∀ name ∈ s.model.references, name ∈ t.model.references

section Setting

variable (contents : Owner → Option Content)

/-- A type of the origin is there when the owner has been converted alone. -/
def Comes (D : Directory) (owner : Owner) (origin : Origin) : Prop :=
  ∃ content d s, contents owner = some content ∧
    D.alone content = .ok (d, s) ∧
      ∃ i < s.model.types.length, D.originIn owner s.model i = origin

/-- A top-level element is referred to when the owner has been converted alone.
-/
def Mentions (D : Directory) (owner : Owner) (name : String) : Prop :=
  ∃ content d s, contents owner = some content ∧
    D.alone content = .ok (d, s) ∧ name ∈ s.model.references

/-- The owner has the definition that it gets if it is converted alone. -/
def Done (D : Directory) (owner : Owner) (origins : List Origin)
    (t : Builder) : Prop :=
  ∃ content d s, contents owner = some content ∧
    D.alone content = .ok (d, s) ∧ s.Alone D owner ∧
      Covers D owner s origins t ∧
        ∃ (j : TypeId) (d' : TypeDef), origins[j]? = some (.owned owner) ∧
          t.model.types[j]? = some d' ∧
            d.Linked (SameOrigin D owner s origins) d'

/-- There is something that cannot be converted in any order. -/
inductive Flawed (D : Directory) : Prop where
  | owner {owner : Owner} {content : Content} {e : DeclarationError}
    (hcontent : contents owner = some content)
    (halone : D.alone content = .error e) : Flawed D
  | head {name : String} {decl : ElementDeclaration} {e : DeclarationError}
    (hdecl : D.elements.lookup name = some decl)
    (hhead : checkHead decl.head name = .error e) : Flawed D
  | unknown {name : String} {decl : ElementDeclaration}
    (hdecl : D.elements.lookup name = some decl)
    (hunknown : ¬ (D.elementOrigin name decl).Known) : Flawed D

/-- Conversion may fail so: a bound is met, or a group seems to contain itself,
or no order would do. -/
inductive MayFail (D : Directory) : DeclarationError → Prop where
  | endless (name : String) : MayFail D (.endless name)
  | groupInItself (name : String) : MayFail D (.groupInItself name)
  | flawed (hflawed : Flawed contents D) (e : DeclarationError) : MayFail D e

/-- Two directories of the same declarations, which may number their types in
different ways, and the contents of what they declare. -/
structure Alike (D D' : Directory) : Prop where
  types : ∀ name, (D'.types.lookup name).isSome = (D.types.lookup name).isSome
  groups : ∀ name, D'.groups.lookup name = D.groups.lookup name
  elements : ∀ name, D'.elements.lookup name = D.elements.lookup name
  nodup : (D.elements.map (·.1)).Nodup
  standing : ∀ name id, D.types.lookup name = some id →
    D.standing[id]? = some (.owned (.type name))
  content : ∀ name decl, D.elements.lookup name = some decl →
    decl.head.type = none →
      contents (.element name) = some (.element decl.items)
  empty : ∀ name decl, D.elements.lookup name = some decl →
    decl.head.type.isSome → decl.items = []
  ends : ∀ content name, D.alone content ≠ .error (.endless name)

/-- An owner that is converted alone, and the conversion that it takes part in.
-/
structure World where
  left : Builder
  right : Builder
  origins : List Origin

/-- The owner is as far in both conversions. -/
structure Valid (D D' : Directory) (owner : Owner) (w : World) : Prop where
  alone : w.left.Alone D owner
  tracked : w.right.Tracked D' w.origins
  covers : Covers D owner w.left w.origins w.right
  begun : ∀ i, .inline owner i ∈ w.origins → i < w.left.model.types.length
  opened : ∀ name, owner = .element name → .owned owner ∈ w.origins

/-- What is added comes from the owner, or from top-level elements that are met
for the first time; these are done. -/
structure Later (D : Directory) (owner : Owner) (w w' : World) : Prop where
  onward : w.left.Onward D owner w'.left
  grows : Grows w.origins w.right w'.origins w'.right
  new : ∀ origin ∈ w'.origins, origin ∈ w.origins ∨
    (∃ i < w'.left.model.types.length,
      D.originIn owner w'.left.model i = origin) ∨
    ∃ name, .owned (.element name) ∉ w.origins ∧
      Comes contents D (.element name) origin
  newReferences : ∀ name ∈ w'.right.model.references,
    name ∈ w.right.model.references ∨ name ∈ w'.left.model.references ∨
      ∃ other, .owned (.element other) ∉ w.origins ∧
        Mentions contents D (.element other) name
  done : ∀ name, .owned (.element name) ∈ w'.origins →
    .owned (.element name) ∈ w.origins ∨
      Done contents D (.element name) w'.origins w'.right

end Setting

variable {contents : Owner → Option Content} {D D' : Directory} {owner : Owner}
  {s s' t t' : Builder} {origins origins' : List Origin} {w w' w'' : World}

theorem SameOrigin.mono (honward : s.Onward D owner s')
    (horigins : origins <+: origins') {i j : TypeId}
    (hsame : SameOrigin D owner s origins i j) :
    SameOrigin D owner s' origins' i j := by
  obtain ⟨hlt, hget⟩ := hsame
  refine ⟨hlt.trans_le honward.types.length_le, ?_⟩
  rw [honward.origins i hlt]
  exact getElem?_of_le horigins hget

/-- The owner goes on, and so does the conversion that it takes part in. -/
theorem Covers.step (hcovers : Covers D owner s origins t)
    (honward : s.Onward D owner s') (hgrows : Grows origins t origins' t')
    (hbuiltin : ∀ name, (s'.model.builtins.lookup name).isSome →
      (s.model.builtins.lookup name).isSome ∨ .builtin name ∈ origins')
    (hinline : ∀ i d, s.model.types.length ≤ i →
      s'.model.types[i]? = some d →
        D.originIn owner s'.model i = .inline owner i →
          ∃ (j : TypeId) (d' : TypeDef), origins'[j]? = some (.inline owner i) ∧
            t'.model.types[j]? = some d' ∧
              d.Linked (SameOrigin D owner s' origins') d')
    (hreferences : ∀ name ∈ s'.model.references,
      name ∈ s.model.references ∨ name ∈ t'.model.references) :
    Covers D owner s' origins' t' where
  builtin name hsome := by
    rcases hbuiltin name hsome with hold | hnew
    · exact hgrows.origins.subset (hcovers.builtin name hold)
    · exact hnew
  inline i d hget horigin := by
    rcases Nat.lt_or_ge i s.model.types.length with hlt | hge
    · rw [honward.origins i hlt] at horigin
      have hd₀ := List.getElem?_eq_getElem hlt
      cases (getElem?_of_le honward.types hd₀).symm.trans hget
      obtain ⟨j, d', hj, hd', hlinked⟩ := hcovers.inline i _ hd₀ horigin
      exact ⟨j, d', getElem?_of_le hgrows.origins hj,
        getElem?_of_le hgrows.types hd',
        hlinked.mono fun _ _ => SameOrigin.mono honward hgrows.origins⟩
    · exact hinline i d hge hget horigin
  references name hname := by
    rcases hreferences name hname with hold | hnew
    · exact hgrows.references name (hcovers.references name hold)
    · exact hnew

/-- What is there stays if no inline type loses its definition. -/
theorem Covers.mono (hcovers : Covers D owner s origins t)
    (horigins : origins <+: origins')
    (htypes : ∀ (i j : TypeId) d, origins[j]? = some (.inline owner i) →
      t.model.types[j]? = some d → t'.model.types[j]? = some d)
    (hreferences : ∀ name ∈ t.model.references, name ∈ t'.model.references) :
    Covers D owner s origins' t' where
  builtin name hsome := horigins.subset (hcovers.builtin name hsome)
  inline i d hget horigin := by
    obtain ⟨j, d', hj, hd', hlinked⟩ := hcovers.inline i d hget horigin
    exact ⟨j, d', getElem?_of_le horigins hj, htypes i j d' hj hd',
      hlinked.mono fun _ _ => SameOrigin.mono (.refl s) horigins⟩
  references name hname := hreferences name (hcovers.references name hname)

/-- An owner is done with what it is converted to alone. -/
theorem Done.of_alone (hdone : Done contents D owner origins t)
    {content : Content} (hcontent : contents owner = some content) {d : TypeDef}
    (halone : D.alone content = .ok (d, s)) :
    s.Alone D owner ∧ Covers D owner s origins t ∧
      ∃ (j : TypeId) (d' : TypeDef), origins[j]? = some (.owned owner) ∧
        t.model.types[j]? = some d' ∧
          d.Linked (SameOrigin D owner s origins) d' := by
  obtain ⟨content', d₁, s₁, hcontent', halone', hdone⟩ := hdone
  cases hcontent.symm.trans hcontent'
  cases halone.symm.trans halone'
  exact hdone

/-- What is done stays done if it keeps its definitions. -/
theorem Done.mono (hdone : Done contents D owner origins t)
    (horigins : origins <+: origins')
    (htypes : ∀ (j : TypeId) d origin, origins[j]? = some origin →
      origin = .owned owner ∨ (∃ i, origin = .inline owner i) →
        t.model.types[j]? = some d → t'.model.types[j]? = some d)
    (hreferences : ∀ name ∈ t.model.references, name ∈ t'.model.references) :
    Done contents D owner origins' t' := by
  obtain ⟨content, d, s, hcontent, hrun, halone, hcovers, j, d', hj, hd',
    hlinked⟩ := hdone
  refine ⟨content, d, s, hcontent, hrun, halone, hcovers.mono horigins ?_
    hreferences, j, d', getElem?_of_le horigins hj, ?_,
    hlinked.mono fun _ _ => SameOrigin.mono (.refl s) horigins⟩
  · exact fun i j d hj => htypes j d _ hj (.inr ⟨i, rfl⟩)
  · exact htypes j d' _ hj (.inl rfl) hd'

theorem Done.of_grows (hdone : Done contents D owner origins t)
    (hgrows : Grows origins t origins' t') :
    Done contents D owner origins' t' :=
  hdone.mono hgrows.origins
    (fun _ _ _ _ _ hget => getElem?_of_le hgrows.types hget)
    hgrows.references

theorem Later.refl (w : World) : Later contents D owner w w :=
  ⟨.refl _, .refl _ _, fun _ => .inl, fun _ => .inl, fun _ => .inl⟩

theorem Later.trans (hfirst : Later contents D owner w w')
    (hsecond : Later contents D owner w' w'') :
    Later contents D owner w w'' where
  onward := hfirst.onward.trans hsecond.onward
  grows := hfirst.grows.trans hsecond.grows
  new origin horigin := by
    rcases hsecond.new origin horigin with hold | hown | ⟨name, hnew, hcomes⟩
    · rcases hfirst.new origin hold with hold | ⟨i, hlt, hown⟩ | hnew
      · exact .inl hold
      · refine .inr (.inl ⟨i, ?_, (hsecond.onward.origins i hlt).trans hown⟩)
        exact hlt.trans_le hsecond.onward.types.length_le
      · exact .inr (.inr hnew)
    · exact .inr (.inl hown)
    · exact .inr (.inr ⟨name,
        fun hold => hnew (hfirst.grows.origins.subset hold), hcomes⟩)
  newReferences name hname := by
    rcases hsecond.newReferences name hname with hold | hown |
      ⟨other, hnew, hmentions⟩
    · rcases hfirst.newReferences name hold with hold | hown | hnew
      · exact .inl hold
      · exact .inr (.inl (hsecond.onward.references name hown))
      · exact .inr (.inr hnew)
    · exact .inr (.inl hown)
    · exact .inr (.inr ⟨other,
        fun hold => hnew (hfirst.grows.origins.subset hold), hmentions⟩)
  done name hname := by
    rcases hsecond.done name hname with hold | hdone
    · rcases hfirst.done name hold with hold | hdone
      · exact .inl hold
      · exact .inr (hdone.of_grows hsecond.grows)
    · exact .inr hdone

/-- The comparison of an owner that is converted alone with the conversion that
it takes part in. -/
def together (contents : Owner → Option Content) (D D' : Directory)
    (owner : Owner) : Comparison World where
  later := Later contents D owner
  holds w s t := w.left = s ∧ w.right = t ∧ Valid D D' owner w
  same w := SameOrigin D owner w.left w.origins
  firstMay e := ∃ name, e = .endless name
  secondMay := MayFail contents D
  bothMay _ _ := True
  later_refl := Later.refl
  later_trans := Later.trans
  same_later hlater := SameOrigin.mono hlater.onward hlater.grows.origins
  bothMay_self _ := trivial

section Steps

variable {origin : Origin}

/-- If a type is found in both conversions the same builtin types are added for
it. -/
theorem outcome_of_finds (hvalid : Valid D D' owner w)
    {x y : Except DeclarationError (TypeId × Builder)}
    (hleft : origin.Finds (w.left.Gains D owner origin) x)
    (hright : origin.Finds
      (fun id b' => ∃ origins',
        Obtains D' origin w.origins w.right origins' id b') y) :
    (together contents D D' owner).Outcome w
      (together contents D D' owner).same x y := by
  cases hleft with
  | unknown hunknown e =>
      cases hright with
      | unknown _ e' => exact .both trivial
      | known hknown => exact absurd hknown hunknown
  | @known i s hknown hgains =>
      cases hright with
      | unknown hunknown => exact absurd hknown hunknown
      | @known j t _ hobtains =>
          obtain ⟨origins', hobtains⟩ := hobtains
          refine .ok ⟨s, t, origins'⟩ ?_ ⟨rfl, rfl, ?_⟩ ⟨hgains.lt, ?_⟩
          · refine ⟨hgains.onward, hobtains.grows, fun other hother => ?_,
              fun name hname => ?_, fun name hname => ?_⟩
            · rcases hobtains.new other hother with hold | ⟨name, hasks, rfl⟩
              · exact .inl hold
              · obtain ⟨i', hlookup⟩ := Option.isSome_iff_exists.mp
                  (hgains.asked name hasks)
                exact .inr (.inl ⟨i',
                  hgains.alone.builtin_lt _ (mem_of_lookup hlookup),
                  hgains.alone.originIn_builtin hlookup⟩)
            · exact .inl (hobtains.references ▸ hname)
            · rcases hobtains.new _ hname with hold | ⟨_, _, ⟨⟩⟩
              exact .inl hold
          · refine ⟨hgains.alone, hobtains.tracked, ?_, fun i' hi' => ?_,
              fun name hname =>
                hobtains.grows.origins.subset (hvalid.opened name hname)⟩
            · refine hvalid.covers.step hgains.onward hobtains.grows
                (fun name hsome => ?_) (fun i' d hge hget hinline => ?_)
                fun name hname => .inl (hgains.references ▸ hname)
              · exact (hgains.new name hsome).imp_right
                  (hobtains.tracked.mem_of_asks hobtains.comes)
              · have hlt := (List.getElem?_eq_some_iff.mp hget).1
                rcases hgains.newTypes i' hlt with hold | ⟨_, -, hbuiltin⟩
                · exact absurd hold (Nat.not_lt.mpr hge)
                · rw [hinline] at hbuiltin
                  cases hbuiltin
            · rcases hobtains.new _ hi' with hold | ⟨_, _, ⟨⟩⟩
              exact (hvalid.begun i' hold).trans_le
                hgains.onward.types.length_le
          · rw [hgains.comes]
            exact hobtains.comes

/-- The next inline type of the owner gets its numbers. -/
theorem together_add (w : World) {d d' : TypeDef}
    (hlinked : d.Linked ((together contents D D' owner).same w) d') :
    (together contents D D' owner).Alongside w
      (together contents D D' owner).same (Conversion.add d)
      (Conversion.add d') := by
  rintro s t ⟨rfl, rfl, hvalid⟩
  rw [Conversion.run_add, Conversion.run_add]
  obtain ⟨halone, honward⟩ := hvalid.alone.add d
  have hnew : .inline owner w.left.model.types.length ∉ w.origins :=
    fun hmem => Nat.lt_irrefl _ (hvalid.begun _ hmem)
  obtain ⟨htracked, hgrows⟩ := hvalid.tracked.add hnew hvalid.opened d'
  have hlength := hvalid.tracked.length
  have horigin : D.originIn owner
      { w.left.model with types := w.left.model.types ++ [d] }
      w.left.model.types.length = .inline owner w.left.model.types.length :=
    (originIn_congr rfl _).trans hvalid.alone.originIn_length
  have hlt : w.left.model.types.length <
      (w.left.model.types ++ [d]).length := by simp
  refine .ok ⟨{ w.left with
      model := { w.left.model with types := w.left.model.types ++ [d] } },
    { w.right with
      model := { w.right.model with types := w.right.model.types ++ [d'] } },
    w.origins ++ [.inline owner w.left.model.types.length]⟩
    ?_ ⟨rfl, rfl, ?_⟩ ⟨hlt, ?_⟩
  · refine ⟨honward, hgrows, fun origin horigin' => ?_, fun _ => .inl,
      fun name hname => ?_⟩
    · rcases List.mem_append.mp horigin' with hold | hlast
      · exact .inl hold
      · rw [List.mem_singleton] at hlast
        exact .inr (.inl ⟨_, hlt, horigin.trans hlast.symm⟩)
    · rcases List.mem_append.mp hname with hold | hlast
      · exact .inl hold
      · simp at hlast
  · refine ⟨halone, htracked, ?_, fun i hi => ?_, fun name hname =>
      List.mem_append_left _ (hvalid.opened name hname)⟩
    · refine hvalid.covers.step honward hgrows (fun _ => .inl)
        (fun i e hge hget _ => ?_) fun _ => .inl
      rcases getElem?_concat_eq_some_iff.mp hget with hold | ⟨rfl, rfl⟩
      · exact absurd (List.getElem?_eq_some_iff.mp hold).1 (Nat.not_lt.mpr hge)
      · exact ⟨w.right.model.types.length, d', by simp [← hlength], by simp,
          hlinked.mono fun _ _ =>
            SameOrigin.mono honward (List.prefix_append _ _)⟩
    · rcases List.mem_append.mp hi with hold | hlast
      · exact (hvalid.begun i hold).trans hlt
      · simp only [List.mem_singleton, Origin.inline.injEq, true_and] at hlast
        rwa [hlast]
  · rw [horigin, ← hlength]
    simp

/-- An element is referred to in both conversions. -/
theorem together_refer (w : World) (name : String) :
    (together contents D D' owner).Alongside w (fun _ _ _ => True)
      (Conversion.refer name) (Conversion.refer name) := by
  rintro s t ⟨rfl, rfl, hvalid⟩
  rw [Conversion.run_refer, Conversion.run_refer]
  obtain ⟨halone, honward⟩ := hvalid.alone.refer name
  obtain ⟨htracked, hgrows⟩ := hvalid.tracked.refer name
  refine .ok ⟨{ w.left with model := w.left.model.addReference name },
    { w.right with model := w.right.model.addReference name }, w.origins⟩
    ?_ ⟨rfl, rfl, ?_⟩ trivial
  · refine ⟨honward, hgrows, fun _ => .inl, fun other hother => ?_,
      fun _ => .inl⟩
    rcases mem_addReference.mp hother with rfl | hold
    · exact .inr (.inl (mem_addReference.mpr (.inl rfl)))
    · exact .inl hold
  · refine ⟨halone, htracked, ?_, fun i hi => ?_, hvalid.opened⟩
    · refine hvalid.covers.step honward hgrows (fun other hother => ?_)
        (fun i d hge hget _ => ?_) fun other hother => ?_
      · rw [addReference_eq] at hother
        exact .inl hother
      · rw [addReference_eq] at hget
        exact absurd (List.getElem?_eq_some_iff.mp hget).1
          (Nat.not_lt.mpr hge)
      · rcases mem_addReference.mp hother with rfl | hold
        · exact .inr (mem_addReference.mpr (.inl rfl))
        · exact .inl hold
    · rw [addReference_eq]
      exact hvalid.begun i hi

theorem Alike.typeOrigin (halike : Alike contents D D') (name : String) :
    D'.typeOrigin name = D.typeOrigin name := by
  rw [Directory.typeOrigin, Directory.typeOrigin, halike.types]

theorem Alike.elementOrigin (halike : Alike contents D D') (name : String)
    (decl : ElementDeclaration) :
    D'.elementOrigin name decl = D.elementOrigin name decl := by
  unfold Directory.elementOrigin
  split
  · exact halike.typeOrigin _
  · rfl

theorem together_supports (halike : Alike contents D D') :
    (together contents D D' owner).Supports D D' where
  add := together_add
  builtin w name := by
    rintro s t ⟨rfl, rfl, hvalid⟩
    exact outcome_of_finds hvalid (hvalid.alone.builtin name)
      (hvalid.tracked.findsBuiltin name)
  type w name := by
    rintro s t ⟨rfl, rfl, hvalid⟩
    have hright := hvalid.tracked.findsType name
    rw [halike.typeOrigin] at hright
    exact outcome_of_finds hvalid (hvalid.alone.type halike.standing name)
      hright
  refer := together_refer

end Steps

end Declaration

end Specimen
